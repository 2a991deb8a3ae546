import CallFlow.Proofs.StoreFiles

/-!
# Changes between a load and a save

Clients take turns at a store, each with whole calls, in any order. A save that takes effect raises
the revision of its flow by one, and no call on another flow touches it, so a flow that is not
created anew is either gone or its revision counts its saves (`Store.isAt_or_gone_run`). Whoever
saves it at the revision it was loaded at then overwrites nobody's changes
(`Store.unchanged_between`).

A flow that is created anew after it was deleted starts at revision 1 once more, so a revision alone
does not tell the flow that was loaded from one that took its place (`Store.lost_update`).
-/

namespace CallFlow

/-- A call, and the client that makes it. -/
structure Turn (κ : Type) where
  client : κ
  call : StoreCall

namespace Store

/-- The store that turns leave. -/
def after {κ : Type} (s : Store) (turns : List (Turn κ)) : Store := s.run (turns.map Turn.call)

/-! ## Calls that take effect -/

/-- Whether a call saves a flow: it is made for this flow and succeeds. -/
def saves (s : Store) (name : String) : StoreCall → Bool
  | .save n f expected => n = name && (s.save n f expected).isOk
  | _ => false

/-- Whether a call deletes a flow: it is made for this flow, which is there, and succeeds. -/
def deletes (s : Store) (name : String) : StoreCall → Bool
  | .delete n expected =>
    n = name && (s.files.find? (fileOf n)).isSome && (s.delete n expected).isOk
  | _ => false

/-- Whether a call changes a flow: it saves or deletes it. -/
def changes (s : Store) (name : String) (call : StoreCall) : Bool :=
  s.saves name call || s.deletes name call

/-- Whether a call creates a flow: it saves it where it is not there. -/
def creates (s : Store) (name : String) (call : StoreCall) : Bool :=
  s.saves name call && (s.files.find? (fileOf name)).isNone

/-- A save that succeeds saves the flow. -/
theorem saves_of_ok {s : Store} {name : String} {f : Flow} {expected : Value} {p : Store × Int}
    (h : s.save name f expected = .ok p) : s.saves name (.save name f expected) = true := by
  simp [saves, Except.isOk_iff.mpr ⟨p, h⟩]

/-- A delete of a flow that is there deletes it, if it succeeds. -/
theorem deletes_of_ok {s left : Store} {name : String} {expected : Value} {r : Scalar}
    (hrevision : s.revision? name = .ok (some r)) (h : s.delete name expected = .ok left) :
    s.deletes name (.delete name expected) = true := by
  obtain ⟨-, text, hfile⟩ := isName_and_file_of_revision? hrevision
  simp [deletes, hfile, Except.isOk_iff.mpr ⟨left, h⟩]

/-- What a call does that saves a flow: it places an envelope with the next revision. -/
theorem perform_of_saves {s : Store} {name : String} {call : StoreCall}
    (h : s.saves name call = true) : ∃ f current, s.revision? name = .ok current ∧
      Json.canWrite (ofEnvelope (nextRevision current) f) = true ∧
      (s.perform call).1 = s.placed name (envelopeText (nextRevision current) f) := by
  cases call with
  | save n f expected =>
    simp only [saves, Bool.and_eq_true, decide_eq_true_eq] at h
    obtain ⟨rfl, hok⟩ := h
    obtain ⟨p, hsave⟩ := Except.isOk_iff.mp hok
    obtain ⟨current, hrevision, -, hwrite, hplaced, -⟩ := save_eq_ok_iff.mp hsave
    exact ⟨f, current, hrevision, hwrite, by rw [perform_save_of_ok hsave, hplaced]⟩
  | _ => cases h

/-- What a call does that deletes a flow: it removes its file. -/
theorem perform_of_deletes {s : Store} {name : String} {call : StoreCall}
    (h : s.deletes name call = true) : (s.perform call).1 = s.without name := by
  cases call with
  | delete n expected =>
    simp only [deletes, Bool.and_eq_true, decide_eq_true_eq] at h
    obtain ⟨⟨rfl, hsome⟩, hok⟩ := h
    obtain ⟨left, hdelete⟩ := Except.isOk_iff.mp hok
    rw [perform_delete_of_ok hdelete]
    rcases delete_eq_ok hdelete with ⟨hrevision, -⟩ | ⟨current, -, -, hleft⟩
    · rw [find?_of_revision?_none hrevision] at hsome
      cases hsome
    · exact hleft
  | _ => cases h

/-- A call that neither saves nor deletes a flow leaves its file as it was. -/
theorem find?_perform {s : Store} {name : String} {call : StoreCall}
    (hsaves : s.saves name call = false) (hdeletes : s.deletes name call = false) :
    (s.perform call).1.files.find? (fileOf name) = s.files.find? (fileOf name) := by
  rcases s.perform_cases call with hsame |
    ⟨n, f, expected, current, rfl, hrevision, hexpected, hwrite, hplaced⟩ |
    ⟨n, expected, current, rfl, hrevision, hmay, hleft⟩
  · rw [hsame]
  · have hne : name ≠ n := by
      rintro rfl
      have hsave := save_eq_ok_iff.mpr ⟨current, hrevision, hexpected, hwrite, rfl, rfl⟩
      rw [saves_of_ok hsave] at hsaves
      cases hsaves
    rw [hplaced, find?_placed_other s _ hne]
  · have hne : name ≠ n := by
      rintro rfl
      have hdelete := (delete_of_revision hrevision expected).trans (if_pos hmay)
      rw [deletes_of_ok hrevision hdelete] at hdeletes
      cases hdeletes
    rw [hleft]
    exact find?_without_of_ne s fun heq => hne (fileOf_injective heq)

/-- A flow that is not there and not created is still not there. -/
theorem find?_perform_of_none {s : Store} {name : String} {call : StoreCall}
    (hnone : s.files.find? (fileOf name) = none) (hcreates : s.creates name call = false) :
    (s.perform call).1.files.find? (fileOf name) = none := by
  have hsaves : s.saves name call = false := by
    simpa [creates, hnone] using hcreates
  cases hdeletes : s.deletes name call with
  | true => rw [perform_of_deletes hdeletes, find?_without_self]
  | false => rw [find?_perform hsaves hdeletes, hnone]

/-- No call moves the store. -/
theorem root_perform (s : Store) (call : StoreCall) : (s.perform call).1.root = s.root := by
  rcases s.perform_cases call with h | ⟨_, _, _, _, -, -, -, -, h⟩ | ⟨_, _, _, -, -, -, h⟩
  · rw [h]
  · rw [h, placed]
  · rw [h, without]

/-! ## Revisions count saves -/

/-- A flow is at a revision if its revision is that number. -/
def IsAt (s : Store) (name : String) (n : Int) : Prop :=
  ∃ r, s.revision? name = .ok (some r) ∧ revisionNumber? r = some n

/-- A call that neither saves nor deletes a flow leaves it at its revision. -/
theorem IsAt.perform {s : Store} {name : String} {n : Int} {call : StoreCall} (h : s.IsAt name n)
    (hsaves : s.saves name call = false) (hdeletes : s.deletes name call = false) :
    (s.perform call).1.IsAt name n := by
  obtain ⟨r, hrevision, hnumber⟩ := h
  refine ⟨r, ?_, hnumber⟩
  unfold revision? at hrevision ⊢
  rw [envelope?_congr (root_perform s call) (find?_perform hsaves hdeletes)]
  exact hrevision

/-- A call that saves a flow raises its revision by one. -/
theorem IsAt.perform_of_saves {s : Store} {name : String} {n : Int} {call : StoreCall}
    (h : s.IsAt name n) (hsaves : s.saves name call = true) :
    (s.perform call).1.IsAt name (n + 1) := by
  obtain ⟨r, hrevision, hnumber⟩ := h
  obtain ⟨hname, -⟩ := isName_and_file_of_revision? hrevision
  obtain ⟨f, current, hcurrent, hwrite, hplaced⟩ := Store.perform_of_saves hsaves
  obtain rfl : some r = current := Except.ok.inj (hrevision.symm.trans hcurrent)
  have hnext : nextRevision (some r) = n + 1 := by
    simp [nextRevision, hnumber]
  rw [hnext] at hwrite hplaced
  rw [hplaced]
  exact ⟨.int (n + 1), (keeps_placed hname hwrite).revision?, rfl⟩

/-- No call of a sequence passes a test, each taken at the store that it is made to. -/
def Never (test : Store → StoreCall → Bool) (s : Store) (calls : List StoreCall) : Prop :=
  ∀ before call rest, calls = before ++ call :: rest → test (s.run before) call = false

/-- Without calls, none passes a test. -/
theorem never_nil (test : Store → StoreCall → Bool) (s : Store) : s.Never test [] := by
  intro before call rest h
  exact absurd h (by simp)

/-- No call passes a test if the first does not, and none of the others from where it leads. -/
theorem never_cons_iff {test : Store → StoreCall → Bool} {s : Store} {call : StoreCall}
    {rest : List StoreCall} :
    s.Never test (call :: rest) ↔ test s call = false ∧ (s.perform call).1.Never test rest := by
  constructor
  · intro h
    refine ⟨h [] call rest rfl, fun before call' rest' heq => ?_⟩
    exact h (call :: before) call' rest' (by rw [heq, List.cons_append])
  · rintro ⟨hcall, hrest⟩ before call' rest' heq
    cases before with
    | nil =>
      obtain ⟨rfl, -⟩ := List.cons.inj heq
      exact hcall
    | cons c before =>
      obtain ⟨rfl, htail⟩ := List.cons.inj (heq.trans (List.cons_append ..))
      exact hrest before call' rest' htail

/-- For turns: none of them passes the test, whoever takes it. -/
theorem never_map_call_iff {κ : Type} {test : Store → StoreCall → Bool} {s : Store}
    {turns : List (Turn κ)} : s.Never test (turns.map Turn.call) ↔
      ∀ before t rest, turns = before ++ t :: rest → test (s.after before) t.call = false := by
  constructor
  · rintro h before t rest rfl
    exact h (before.map Turn.call) t.call (rest.map Turn.call) (by simp)
  · intro h before call rest heq
    obtain ⟨before, tail, hturns, rfl, htail⟩ := List.map_eq_append_iff.mp heq
    obtain ⟨t, rest, rfl, rfl, rfl⟩ := List.map_eq_cons_iff.mp htail
    exact h before t rest hturns

/-- A flow that is not there and is not created stays away. -/
theorem find?_run_of_none {name : String} : ∀ {calls : List StoreCall} {s : Store},
    s.files.find? (fileOf name) = none → s.Never (fun s => s.creates name) calls →
      (s.run calls).files.find? (fileOf name) = none
  | [], _, hnone, _ => hnone
  | call :: rest, s, hnone, h => by
    obtain ⟨hcreates, hrest⟩ := never_cons_iff.mp h
    rw [run_cons]
    exact find?_run_of_none (find?_perform_of_none hnone hcreates) hrest

/-- A flow that is not created anew is either gone at the end, or its revision counts its saves: if
it is still the same, nobody changed the flow. -/
theorem isAt_or_gone_run {name : String} : ∀ {calls : List StoreCall} {s : Store} {n : Int},
    s.IsAt name n → s.Never (fun s => s.creates name) calls →
      (s.run calls).files.find? (fileOf name) = none ∨
      ∃ k : Nat, (s.run calls).IsAt name (n + k) ∧
        (k = 0 → s.Never (fun s => s.changes name) calls ∧
          (s.run calls).files.find? (fileOf name) = s.files.find? (fileOf name))
  | [], s, n, h, _ => .inr ⟨0, by simpa using h, fun _ => ⟨never_nil _ s, rfl⟩⟩
  | call :: rest, s, n, h, hnew => by
    obtain ⟨-, hnew⟩ := never_cons_iff.mp hnew
    cases hdeletes : s.deletes name call with
    | true =>
      have hgone : (s.perform call).1.files.find? (fileOf name) = none := by
        rw [perform_of_deletes hdeletes, find?_without_self]
      rw [run_cons]
      exact .inl (find?_run_of_none hgone hnew)
    | false =>
      cases hsaves : s.saves name call with
      | true =>
        refine (isAt_or_gone_run (h.perform_of_saves hsaves) hnew).imp_right ?_
        rintro ⟨k, hk, -⟩
        have hsum : n + 1 + (k : Int) = n + (k + 1 : Nat) := by
          push_cast
          ring
        exact ⟨k + 1, hsum ▸ hk, by simp⟩
      | false =>
        refine (isAt_or_gone_run (h.perform hsaves hdeletes) hnew).imp_right ?_
        rintro ⟨k, hk, hsame⟩
        refine ⟨k, hk, fun hzero => ?_⟩
        obtain ⟨hnever, hfile⟩ := hsame hzero
        have hchanges : s.changes name call = false := by
          rw [changes, hsaves, hdeletes]
          rfl
        exact ⟨never_cons_iff.mpr ⟨hchanges, hnever⟩, hfile.trans (find?_perform hsaves hdeletes)⟩

/-- No sequence of calls moves the store. -/
theorem root_run : ∀ (calls : List StoreCall) (s : Store), (s.run calls).root = s.root
  | [], _ => rfl
  | call :: rest, s => (root_run rest _).trans (root_perform s call)

/-- The revision that is expected has the number of the one that is there. -/
theorem eq_of_isExpected {current : Option Scalar} {r : Scalar} {n : Int}
    (h : isExpected current (.scalar r) = true) (hr : revisionNumber? r = some n) :
    ∃ r', current = some r' ∧ ∀ m, revisionNumber? r' = some m → m = n := by
  have hnumber : ∀ {r : Scalar} {n : Int}, revisionNumber? r = some n →
      r = .int n ∨ ∃ b, r = .bool b ∧ n = if b then 1 else 0 := by
    intro r n h
    cases r <;> simp_all [revisionNumber?]
  cases current with
  | none =>
    rcases hnumber hr with rfl | ⟨b, rfl, -⟩
    all_goals cases h
  | some r' =>
    refine ⟨r', rfl, fun m hm => ?_⟩
    rcases hnumber hm with rfl | ⟨b, rfl, rfl⟩
    all_goals rcases hnumber hr with rfl | ⟨b', rfl, rfl⟩
    all_goals simpa [isExpected, Value.same, Scalar.same, Scalar.toInt?] using h

/-! ## No update is lost -/

/-- **Nobody's change is lost unless the flow is created anew.** If a flow is saved at the revision
that it was loaded at, and no client created it anew since then, then no client saved or deleted it
since then, in whatever order the clients took their turns: the flow that is overwritten is the one
that was loaded. -/
theorem unchanged_between {κ : Type} {s s' : Store} {name : String} {f g : Flow} {r : Scalar}
    {next : Int} {turns : List (Turn κ)} (hload : s.load name = .ok (f, r))
    (hnew : ∀ before t rest, turns = before ++ t :: rest →
      (s.after before).creates name t.call = false)
    (hsave : (s.after turns).save name g (.scalar r) = .ok (s', next)) :
    (∀ before t rest, turns = before ++ t :: rest → (s.after before).changes name t.call = false) ∧
      (s.after turns).load name = .ok (f, r) := by
  have hrevision := revision?_of_load hload
  obtain ⟨hname, -⟩ := isName_and_file_of_revision? hrevision
  obtain ⟨n, hnumber⟩ := exists_revisionNumber hrevision
  obtain ⟨current, hcurrent, hexpected, -⟩ := save_eq_ok_iff.mp hsave
  obtain ⟨r', rfl, hcount⟩ := eq_of_isExpected hexpected hnumber
  rcases isAt_or_gone_run ⟨r, hrevision, hnumber⟩ (never_map_call_iff.mpr hnew) with
    hgone | ⟨k, ⟨r'', hrevision'', hnumber''⟩, hsame⟩
  · -- a flow that is gone has no revision to be expected
    cases hcurrent.symm.trans (revision?_of_missing hname hgone)
  · -- the revision has counted the saves, and it is still the same
    obtain rfl : r' = r'' := Option.some.inj (Except.ok.inj (hcurrent.symm.trans hrevision''))
    have hstill := hcount _ hnumber''
    obtain ⟨hnever, hfile⟩ := hsame (by omega)
    refine ⟨never_map_call_iff.mp hnever, ?_⟩
    have hroot : (s.after turns).root = s.root := root_run _ s
    rw [← hload]
    unfold load
    rw [envelope?_congr hroot hfile]

/-- A flow with one message. -/
def note (message : String) : Flow where
  nodes := [⟨"a", "Note", .known (.prompt ⟨some message, none, none⟩), Node.origin⟩]
  edges := []
  start := none
  distinct := by simp

/-- A store with one flow. -/
def oneMenu : Store := ⟨"flows", [(fileOf "menu", envelopeText 1 (note "Hello"))]⟩

/-- The store keeps the menu at its first revision. -/
theorem keeps_oneMenu : oneMenu.Keeps "menu" 1 (note "Hello") := by
  refine ⟨by decide, by decide +kernel, ?_⟩
  simp [oneMenu, TextTable.find?, Association.lookup?]

/-- The menu can be loaded. -/
theorem exists_load_oneMenu : ∃ f, oneMenu.load "menu" = .ok (f, .int 1) := by
  have hsome : (Document.toFlow (Json.reread (Document.ofFlow (note "Hello")))).toOption.isSome =
      true := by decide +kernel
  cases hflow : Document.toFlow (Json.reread (Document.ofFlow (note "Hello"))) with
  | error e =>
    rw [hflow] at hsome
    cases hsome
  | ok f => exact ⟨f, keeps_oneMenu.load hflow⟩

/-- After one client loaded the flow, it looks at the revision, and another client saves another
flow under another name. -/
def harmlessTurns : List (Turn String) :=
  [⟨"ann", .revision "menu"⟩, ⟨"ben", .save "other" (note "Bye") .null⟩]

/-- The save after these turns is accepted, and none of them changed the flow that was loaded. -/
theorem unchanged_between_harmlessTurns : ∃ (f : Flow) (s' : Store),
    oneMenu.load "menu" = .ok (f, .int 1) ∧
    (∀ before t rest, harmlessTurns = before ++ t :: rest →
      (oneMenu.after before).creates "menu" t.call = false) ∧
    (oneMenu.after harmlessTurns).save "menu" (note "Welcome") (.int 1) = .ok (s', 2) ∧
    (∀ before t rest, harmlessTurns = before ++ t :: rest →
      (oneMenu.after before).changes "menu" t.call = false) ∧
    (oneMenu.after harmlessTurns).load "menu" = .ok (f, .int 1) := by
  obtain ⟨f, hload⟩ := exists_load_oneMenu
  have hother : oneMenu.files.find? (fileOf "other") = none := by decide +kernel
  have hsaved := save_of_missing (by decide) hother (f := note "Bye") (by decide +kernel)
  have hafter : oneMenu.after harmlessTurns =
      oneMenu.placed "other" (envelopeText 1 (note "Bye")) :=
    congrArg Prod.fst (perform_save_of_ok hsaved)
  have hkeeps : (oneMenu.after harmlessTurns).Keeps "menu" 1 (note "Hello") := by
    refine ⟨keeps_oneMenu.isName, keeps_oneMenu.canWrite, ?_⟩
    rw [hafter, find?_placed_other _ _ (by decide), keeps_oneMenu.file]
  have hnew : ∀ before t rest, harmlessTurns = before ++ t :: rest →
      (oneMenu.after before).creates "menu" t.call = false := by
    intro before t rest heq
    have ht : t ∈ harmlessTurns := by simp [heq]
    simp only [harmlessTurns, List.mem_cons, List.not_mem_nil, or_false] at ht
    rcases ht with rfl | rfl <;> rfl
  have hsave := hkeeps.save (g := note "Welcome") (by decide +kernel)
  obtain ⟨hnever, hagain⟩ := unchanged_between hload hnew hsave
  exact ⟨f, _, hload, hnew, hsave, hnever, hagain⟩

/-- A flow that is deleted and saved again is at revision 1 once more, so whoever loaded the deleted
one at revision 1 overwrites the new one. -/
theorem save_of_recreated {s : Store} {name : String} {f g h : Flow} (hkeeps : s.Keeps name 1 f)
    (hg : Json.canWrite (ofEnvelope 1 g) = true) (hh : Json.canWrite (ofEnvelope 2 h) = true) :
    s.deletes name (.delete name .null) = true ∧
      (s.run [.delete name .null]).saves name (.save name g .null) = true ∧
      ∃ s', (s.run [.delete name .null, .save name g .null]).save name h (.int 1) = .ok (s', 2) := by
  have hdeleted : s.delete name .null = .ok (s.without name) :=
    (delete_of_revision hkeeps.revision? .null).trans (if_pos rfl)
  have hsaved := save_of_missing hkeeps.isName (find?_without_self s name) hg
  have hrun : s.run [.delete name .null] = s.without name :=
    congrArg Prod.fst (perform_delete_of_ok hdeleted)
  refine ⟨deletes_of_ok hkeeps.revision? hdeleted, ?_, ?_⟩
  · rw [hrun]
    exact saves_of_ok hsaved
  · have hrun' : s.run [.delete name .null, .save name g .null] =
        (s.without name).placed name (envelopeText 1 g) := by
      rw [run_cons, perform_delete_of_ok hdeleted]
      exact congrArg Prod.fst (perform_save_of_ok hsaved)
    rw [hrun']
    exact ⟨_, (keeps_placed hkeeps.isName hg).save hh⟩

/-- An update that is lost: `ann` loads a flow at revision 1, `ben` deletes it and saves another one
under its name, and the save of `ann` at revision 1 overwrites that. -/
theorem lost_update : (∃ f, oneMenu.load "menu" = .ok (f, .int 1)) ∧
    oneMenu.deletes "menu" (.delete "menu" .null) = true ∧
    (oneMenu.after [(⟨"ben", .delete "menu" .null⟩ : Turn String)]).saves "menu"
      (.save "menu" (note "Bye") .null) = true ∧
    ∃ s', (oneMenu.after [(⟨"ben", .delete "menu" .null⟩ : Turn String),
      ⟨"ben", .save "menu" (note "Bye") .null⟩]).save "menu" (note "Welcome") (.int 1) =
        .ok (s', 2) := by
  obtain ⟨hdeletes, hsaves, hsave⟩ := save_of_recreated keeps_oneMenu (g := note "Bye")
    (h := note "Welcome") (by decide +kernel) (by decide +kernel)
  exact ⟨exists_load_oneMenu, hdeletes, hsaves, hsave⟩

end Store

end CallFlow
