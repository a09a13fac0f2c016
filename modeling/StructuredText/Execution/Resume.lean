-- SUMMARY: Micro-steps: resuming what is left to do until a micro-step ends.
import StructuredText.Execution.Statement

/-!
# Micro-steps

A micro-step resumes the innermost frame. While what a frame goes on with finishes in the same micro-step,
its result is passed to the frame that waits for it.
-/

namespace StructuredText.Run

/-- Goes on with a frame, given the result that it waits for. -/
def resume (env : Environment) (r : Evaluated) : Frame → Run (Progress Evaluated)
  | .index info path before indexes rest =>
    Expr.evaluateAll env (fun done more => .index info path done indexes more)
      (Expr.lookupAt env info path indexes) (before ++ [r]) rest
  | .operand info op => Expr.applyUnary info op r
  | .left op left right =>
    andThen (right.evaluate env) (.right op left right r.value)
      (Expr.applyBinary env op left right r.value)
  | .right op left right value => Expr.applyBinary env op left right value r
  | .arg site before rest =>
    Expr.evaluateAll env (.arg site) (Expr.invoke env site) (before ++ [r]) rest
  | .callee site args i => Expr.leave site args i
  | .results site args i => Expr.collectResults env site args i
  | .start s => s.execute env
  | .rest statements => Stmt.continueBlock statements
  | .target info target value => Stmt.assignValue env info target value r
  | .value target => Stmt.assignTo env target r
  | .condition condition body rest otherwise => do
    if ← Stmt.truth condition r then body.execute env
    else Stmt.executeBranches env otherwise (Stmt.executeOption env otherwise) rest
  | .selector selector arms otherwise =>
    Stmt.executeArms env selector.span r.value (Stmt.executeOption env otherwise) arms
  | .bound loop before rest =>
    Expr.evaluateAll env (.bound loop) (Stmt.runFor env loop (loop.body.execute env))
      (before ++ [r]) rest
  | .forBody info remaining body => Stmt.afterFor info remaining body
  | .whileTest info condition body entered =>
    Stmt.testWhile info condition body (body.execute env) entered r
  | .whileBody info condition body => Stmt.afterWhile info condition body
  | .whileAgain info condition body =>
    andThen (condition.evaluate env) (.whileTest info condition body true)
      (Stmt.testWhile info condition body (body.execute env) true)
  | .repeatBody info body condition => Stmt.afterRepeat env info body condition
  | .repeatTest info body condition => Stmt.testRepeat info body condition r

/-- Goes on with the frames, given the result that the innermost one waits for. -/
def resumeAll (env : Environment) : List Frame → Evaluated → Run (Progress Evaluated)
  | [], r => pure (.done r)
  | frame :: outer, r => do
    match ← resume env r frame with
    | .done r => resumeAll env outer r
    | .paused inner => pure (.paused (inner ++ outer))

/-- Performs a micro-step of what is left to do. -/
def microStep (env : Environment) (frames : List Frame) : Run (Progress Evaluated) :=
  resumeAll env frames {}

end StructuredText.Run
