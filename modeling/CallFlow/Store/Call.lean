import CallFlow.Store

/-!
# Calls of a store

What the clients of a store do: they call one operation after the other, each of them whole before
the next one starts. A call gives an answer and leaves a store; a call that fails leaves the store
as it was.
-/

namespace CallFlow

/-- A call of one of the operations of a store. -/
inductive StoreCall where
  | revision (name : String)
  | load (name : String)
  | save (name : String) (flow : Flow) (expected : Value)
  | delete (name : String) (expected : Value)
  | list

/-- What a call gives that succeeds. -/
inductive StoreAnswer where
  | revision (number : Option Scalar)
  | loaded (flow : Flow) (revision : Scalar)
  | saved (revision : Int)
  | deleted
  | names (names : List String)

namespace Store

/-- The store that a call leaves, and what it answers. -/
def perform (s : Store) : StoreCall → Store × Except StoreFault StoreAnswer
  | .revision name => (s, (s.revision? name).map .revision)
  | .load name => (s, (s.load name).map fun p => .loaded p.1 p.2)
  | .save name f expected =>
    match s.save name f expected with
    | .ok (saved, revision) => (saved, .ok (.saved revision))
    | .error fault => (s, .error fault)
  | .delete name expected =>
    match s.delete name expected with
    | .ok left => (left, .ok .deleted)
    | .error fault => (s, .error fault)
  | .list => (s, .ok (.names s.list))

/-- The store that calls leave, made one after the other. -/
def run (s : Store) (calls : List StoreCall) : Store :=
  calls.foldl (fun s call => (s.perform call).1) s

/-- What calls answer, made one after the other. -/
def answers (s : Store) : List StoreCall → List (Except StoreFault StoreAnswer)
  | [] => []
  | call :: rest => (s.perform call).2 :: (s.perform call).1.answers rest

/-- Without calls the store stays as it is. -/
@[simp] theorem run_nil (s : Store) : s.run [] = s := rfl

/-- Calls are made one after the other. -/
@[simp] theorem run_cons (s : Store) (call : StoreCall) (rest : List StoreCall) :
    s.run (call :: rest) = (s.perform call).1.run rest := rfl

/-- To ask for a revision changes nothing. -/
@[simp] theorem perform_revision (s : Store) (name : String) :
    s.perform (.revision name) = (s, (s.revision? name).map .revision) := rfl

/-- To load a flow changes nothing. -/
@[simp] theorem perform_load (s : Store) (name : String) :
    s.perform (.load name) = (s, (s.load name).map fun p => .loaded p.1 p.2) := rfl

section

variable {s s' : Store} {name : String} {f : Flow} {expected : Value} {next : Int}
  {fault : StoreFault}

/-- A save that succeeds leaves its store and gives the revision. -/
theorem perform_save_of_ok (h : s.save name f expected = .ok (s', next)) :
    s.perform (.save name f expected) = (s', .ok (.saved next)) := by
  rw [perform, h]

/-- A save that fails changes nothing. -/
theorem perform_save_of_error (h : s.save name f expected = .error fault) :
    s.perform (.save name f expected) = (s, .error fault) := by
  rw [perform, h]

/-- A delete that succeeds leaves its store. -/
theorem perform_delete_of_ok (h : s.delete name expected = .ok s') :
    s.perform (.delete name expected) = (s', .ok .deleted) := by
  rw [perform, h]

/-- A delete that fails changes nothing. -/
theorem perform_delete_of_error (h : s.delete name expected = .error fault) :
    s.perform (.delete name expected) = (s, .error fault) := by
  rw [perform, h]

end

/-- A call that fails leaves the store as it was. -/
theorem perform_of_error {s : Store} {call : StoreCall} {fault : StoreFault}
    (h : (s.perform call).2 = .error fault) : (s.perform call).1 = s := by
  cases call with
  | save name f expected =>
    cases hsave : s.save name f expected with
    | error e => rw [perform_save_of_error hsave]
    | ok p =>
      rw [perform_save_of_ok hsave] at h
      cases h
  | delete name expected =>
    cases hdelete : s.delete name expected with
    | error e => rw [perform_delete_of_error hdelete]
    | ok left =>
      rw [perform_delete_of_ok hdelete] at h
      cases h
  | _ => rfl

end Store

end CallFlow
