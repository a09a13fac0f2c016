-- SUMMARY: What micro-steps come to, and what the frames that wait for it do with it.
import StructuredText.Execution.Resume
import StructuredText.Proofs.Computation

/-!
# Settling

A micro-step ends with a result, with an error, or with frames that are left to do. Micro-steps settle if
going on with the frames that are left leads to a result or an error. On the way there statements are
announced, each at the end of a micro-step. Frames that wait for a result do not take part before it is
there: to go on with frames after a computation is to go on with the computation and then with the frames.
-/

namespace StructuredText.Run

/-- What a micro-step ends with. -/
abbrev Stepped := EStateM.Result Diagnostic Execution (Progress Evaluated)

/-- What an execution ends with. -/
abbrev Settled := EStateM.Result Diagnostic Execution Evaluated

/-- An execution that goes on after a pause. -/
def resumed (x : Execution) : Execution := ⟨x.storage, x.cursor.clearPause⟩

variable {env : Environment}

-- ---------------------------------------------------------------------------
-- Settling
-- ---------------------------------------------------------------------------

/-- Going on with what a micro-step has left takes a number of micro-steps. -/
inductive Settles (env : Environment) : Stepped → Nat → Settled → Prop
  | done {r x} : Settles env (.ok (.done r) x) 0 (.ok r x)
  | failed {d x} : Settles env (.error d x) 0 (.error d x)
  | paused {frames x n r} (h : Settles env (microStep env frames (resumed x)) n r) :
    Settles env (.ok (.paused frames) x) (n + 1) r

-- ---------------------------------------------------------------------------
-- Passing
-- ---------------------------------------------------------------------------

/-- The statement that is announced where a micro-step ends, with the storage there. -/
def announced (x : Execution) : List (Span × Storage) := (x.cursor.pause.map (·, x.storage)).toList

/-- Going on with what a micro-step has left leads in a number of micro-steps to what another one ends with. The
announcements that are passed are noted. -/
inductive Passes (env : Environment) : Stepped → Nat → List (Span × Storage) → Stepped → Prop
  | refl {p} : Passes env p 0 [] p
  | next {frames x n notes q} (h : Passes env (microStep env frames (resumed x)) n notes q) :
    Passes env (.ok (.paused frames) x) (n + 1) (announced x ++ notes) q

/-- Nothing is left to do. -/
def Final : Stepped → Prop
  | .ok (.paused _) _ => False
  | _ => True

variable {p q r : Stepped} {m n : Nat} {notes notes' : List (Span × Storage)}

theorem Passes.one {frames : List Frame} {x : Execution} :
    Passes env (.ok (.paused frames) x) 1 (announced x) (microStep env frames (resumed x)) := by
  rw [← List.append_nil (announced x)]
  exact .next .refl

theorem Passes.trans (h : Passes env p m notes q) (h' : Passes env q n notes' r) :
    Passes env p (m + n) (notes ++ notes') r := by
  induction h with
  | refl => simpa using h'
  | next _ ih =>
    rw [Nat.add_right_comm, List.append_assoc]
    exact .next (ih h')

/-- Of two ways to go on the longer one is a continuation of the other. -/
theorem Passes.split (h : Passes env p m notes q) (h' : Passes env p n notes' r) (hmn : m ≤ n) :
    ∃ rest, Passes env q (n - m) rest r ∧ notes' = notes ++ rest := by
  induction h generalizing n notes' with
  | refl => exact ⟨notes', h', rfl⟩
  | next _ ih =>
    cases h' with
    | refl => omega
    | next h' =>
      obtain ⟨rest, hrest, rfl⟩ := ih h' (by omega)
      exact ⟨rest, by rwa [Nat.add_sub_add_right], (List.append_assoc ..).symm⟩

/-- There is no way to go on from an end. -/
theorem Passes.of_final (h : Passes env p n notes q) (hp : Final p) : n = 0 ∧ notes = [] ∧ q = p := by
  cases h with
  | refl => exact ⟨rfl, rfl, rfl⟩
  | next => exact hp.elim

/-- What leads to an end leads there by way of everything else. -/
theorem Passes.to_final (h : Passes env p m notes q) (hq : Final q) (h' : Passes env p n notes' r) :
    n ≤ m ∧ ∃ rest, Passes env r (m - n) rest q ∧ notes = notes' ++ rest := by
  have hnm : n ≤ m := by
    by_contra hlt
    obtain ⟨rest, hrest, -⟩ := h.split h' (by omega)
    have := (hrest.of_final hq).1
    omega
  exact ⟨hnm, h'.split h hnm⟩

theorem Passes.unique (h : Passes env p m notes q) (hq : Final q) (h' : Passes env p n notes' r) (hr : Final r) :
    m = n ∧ notes = notes' ∧ q = r := by
  obtain ⟨hnm, rest, hrest, rfl⟩ := h.to_final hq h'
  obtain ⟨hzero, rfl, rfl⟩ := hrest.of_final hr
  exact ⟨by omega, by simp, rfl⟩

-- ---------------------------------------------------------------------------
-- Frames that wait
-- ---------------------------------------------------------------------------

/-- Goes on with frames that wait for what a micro-step ends with. -/
def follow (env : Environment) (outer : List Frame) : Stepped → Stepped
  | .ok (.done r) x => resumeAll env outer r x
  | .ok (.paused inner) x => .ok (.paused (inner ++ outer)) x
  | .error d x => .error d x

theorem follow_done (outer : List Frame) (r : Evaluated) (x : Execution) :
    follow env outer (.ok (.done r) x) = resumeAll env outer r x := rfl

theorem follow_nil (p : Stepped) : follow env [] p = p := by
  rcases p with ⟨r | inner, x⟩ | ⟨d, x⟩
  · rfl
  · simp [follow]
  · rfl

theorem resumeAll_cons (frame : Frame) (outer : List Frame) (r : Evaluated) (x : Execution) :
    resumeAll env (frame :: outer) r x = follow env outer (resume env r frame x) := by
  rw [resumeAll]
  simp only [EStateM.bind_apply]
  rcases resume env r frame x with ⟨r | inner, x⟩ | ⟨d, x⟩ <;> rfl

theorem follow_append (inner outer : List Frame) (p : Stepped) :
    follow env (inner ++ outer) p = follow env outer (follow env inner p) := by
  induction inner generalizing p with
  | nil => rw [follow_nil, List.nil_append]
  | cons frame inner ih =>
    rcases p with ⟨r | frames, x⟩ | ⟨d, x⟩
    · rw [follow_done, follow_done, List.cons_append, resumeAll_cons, resumeAll_cons, ih]
    · simp [follow]
    · rfl

theorem resumeAll_append (inner outer : List Frame) (r : Evaluated) (x : Execution) :
    resumeAll env (inner ++ outer) r x = follow env outer (resumeAll env inner r x) :=
  follow_append inner outer (.ok (.done r) x)

theorem microStep_append (inner outer : List Frame) (x : Execution) :
    microStep env (inner ++ outer) x = follow env outer (microStep env inner x) :=
  resumeAll_append inner outer {} x

theorem resumeAll_singleton (frame : Frame) (r : Evaluated) (x : Execution) :
    resumeAll env [frame] r x = resume env r frame x := by
  rw [resumeAll_cons, follow_nil]

/-- To go on in the same micro-step is to go on with a frame that resumes in the same way. -/
theorem andThen_apply {frame : Frame} {next : Evaluated → Run (Progress Evaluated)}
    (hframe : ∀ r, resume env r frame = next r) (m : Run (Progress Evaluated)) (x : Execution) :
    andThen m frame next x = follow env [frame] (m x) := by
  simp only [andThen, EStateM.bind_apply]
  rcases m x with ⟨r | inner, x⟩ | ⟨d, x⟩
  · simp only [follow, resumeAll_singleton, hframe]
  · rfl
  · rfl

theorem microStep_start {s : Stmt} {frame : Frame} {next : Evaluated → Run (Progress Evaluated)}
    (hframe : ∀ r, resume env r frame = next r) (x : Execution) :
    andThen (s.execute env) frame next x = microStep env [.start s, frame] x := by
  rw [andThen_apply hframe, microStep, resumeAll_cons]
  rfl

-- ---------------------------------------------------------------------------
-- Going on with frames that wait
-- ---------------------------------------------------------------------------

variable {outer : List Frame}

theorem Passes.follow (h : Passes env p n notes q) :
    Passes env (Run.follow env outer p) n notes (Run.follow env outer q) := by
  induction h with
  | refl => exact .refl
  | next _ ih =>
    refine .next ?_
    rwa [microStep_append]

/-- What settles with frames that wait has settled without them before. -/
theorem Settles.of_follow {r : Evaluated} {x' : Execution} (h : Settles env (Run.follow env outer p) n (.ok r x')) :
    ∃ m k a x, Settles env p m (.ok a x) ∧ Settles env (resumeAll env outer a x) k (.ok r x') := by
  induction n generalizing p with
  | zero =>
    rcases p with ⟨a | inner, x⟩ | ⟨d, x⟩
    · exact ⟨0, 0, a, x, .done, h⟩
    · cases h
    · cases h
  | succ n ih =>
    rcases p with ⟨a | inner, x⟩ | ⟨d, x⟩
    · exact ⟨0, n + 1, a, x, .done, h⟩
    · cases h with
      | paused h =>
        rw [microStep_append] at h
        obtain ⟨m, k, a, z, hinner, houter⟩ := ih h
        exact ⟨m + 1, k, a, z, .paused hinner, houter⟩
    · cases h

end StructuredText.Run
