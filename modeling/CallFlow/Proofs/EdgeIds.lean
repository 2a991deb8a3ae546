import CallFlow.Document
import CallFlow.Proofs.Except
import CallFlow.Proofs.FreeIds

/-!
# The ids of edges

An edge of a document gets the id that its entry gives, or else a free one. So the edges of a
document that is read have distinct ids that are not empty (`Document.nodup_ids_readEdges`,
`Document.readEdge_eq_ok`), whether the document gives the ids or not.
-/

namespace CallFlow

namespace Document

/-- A text that is not empty is read as it is, and nothing else is read. -/
theorem nonemptyText?_eq_some_iff {v : Value} {s : String} :
    nonemptyText? v = some s ↔ v = .text s ∧ s ≠ "" := by
  unfold nonemptyText?
  split
  · rename_i t
    split
    · rename_i hempty
      simp only [reduceCtorEq, Value.scalar.injEq, Scalar.text.injEq, false_iff, not_and]
      rintro rfl
      exact fun hne => hne hempty
    · rename_i hne
      simp only [Option.some.injEq, Value.scalar.injEq, Scalar.text.injEq]
      constructor
      · rintro rfl
        exact ⟨rfl, hne⟩
      · exact fun h => h.1
  · rename_i hv
    simp only [reduceCtorEq, false_iff, not_and]
    rintro rfl
    exact absurd rfl (hv s)

/-- A text that is not empty. -/
def IsName (v : Value) : Prop := ∃ s, v = .text s ∧ s ≠ ""

/-- What is read as a text that is not empty. -/
theorem exists_nonemptyText?_iff {v : Value} : (∃ s, nonemptyText? v = some s) ↔ IsName v := by
  unfold IsName
  simp only [nonemptyText?_eq_some_iff]

/-- The id that an entry of a document gives to its edge. -/
def explicitId? : Value → Option String
  | .mapping entry => nonemptyText? (Entries.field entry "id")
  | _ => none

/-- An id that an entry may give to its edge: none, or a name. Only mappings give ids. -/
def GivesId (v : Value) : Prop :=
  ∀ entry, v = .mapping entry →
    Entries.field entry "id" = .null ∨ IsName (Entries.field entry "id")

/-- An edge that is read has the ends and the handle of its entry, and the id that the entry gives
or else a free one. -/
theorem readEdge_eq_ok {index : Nat} {taken : List String} {v : Value} {e : Edge}
    (h : readEdge index taken v = .ok e) : ∃ entry, v = .mapping entry ∧
      nonemptyText? (Entries.field entry "source") = some e.source ∧
      nonemptyText? (Entries.field entry "target") = some e.target ∧
      readHandle (Entries.field entry "sourceHandle") = .ok e.handle ∧
      e.id = (explicitId? v).getD
        (Edge.freeId taken (Edge.derivedId e.source e.target e.handle)) := by
  unfold readEdge at h
  split at h
  · rename_i entry
    split at h
    · rename_i source hsource
      split at h
      · rename_i target htarget
        obtain ⟨handle, hhandle, h⟩ := Except.bind_eq_ok_iff.mp h
        obtain rfl := Except.ok.inj h
        exact ⟨entry, rfl, hsource, htarget, Except.mapError_eq_ok_iff.mp hhandle, rfl⟩
      · cases h
    · cases h
  · cases h

/-- Where the ends and the handle of an entry can be read, its edge is. -/
theorem readEdge_of_fields {index : Nat} {taken : List String} {entry : Entries}
    {source target : String} {handle : Option String}
    (hsource : nonemptyText? (entry.field "source") = some source)
    (htarget : nonemptyText? (entry.field "target") = some target)
    (hhandle : readHandle (entry.field "sourceHandle") = .ok handle) :
    readEdge index taken (.mapping entry) =
      .ok ⟨(explicitId? (.mapping entry)).getD
        (Edge.freeId taken (Edge.derivedId source target handle)), source, target, handle⟩ := by
  simp only [readEdge, hsource, htarget, hhandle]
  rfl

/-- Entries are read as edges one after the other, and the ids that are taken are those of the edges
before. -/
theorem readEdges_cons_eq_ok {index : Nat} {taken : List String} {v : Value} {rest : List Value}
    {es : List Edge} (h : readEdges index taken (v :: rest) = .ok es) :
    ∃ e es', readEdge index taken v = .ok e ∧
      readEdges (index + 1) (e.id :: taken) rest = .ok es' ∧ es = e :: es' := by
  rw [readEdges] at h
  obtain ⟨e, hedge, h⟩ := Except.bind_eq_ok_iff.mp h
  obtain ⟨es', hrest, h⟩ := Except.bind_eq_ok_iff.mp h
  exact ⟨e, es', hedge, hrest, (Except.ok.inj h).symm⟩

/-- An id that an entry gives is taken up if no entry before gives it. -/
theorem explicitIds_cons_of_some {index : Nat} {seen : List String} {v : Value} {id : String}
    (h : explicitId? v = some id) (hnew : id ∉ seen) (rest : List Value) :
    explicitIds index seen (v :: rest) = explicitIds (index + 1) (id :: seen) rest := by
  unfold explicitId? at h
  split at h
  · obtain ⟨hfield, -⟩ := nonemptyText?_eq_some_iff.mp h
    rw [hfield] at h
    simp only [explicitIds, hfield, h, if_neg hnew]
  · cases h

/-- One entry of the first reading: it may give an id that no entry before gave. -/
theorem explicitIds_cons_eq_ok_iff {index : Nat} {seen : List String} {v : Value}
    {rest : List Value} {ids : List String} : explicitIds index seen (v :: rest) = .ok ids ↔
      GivesId v ∧ (∀ id, explicitId? v = some id → id ∉ seen) ∧
        explicitIds (index + 1) ((explicitId? v).toList ++ seen) rest = .ok ids := by
  unfold GivesId
  cases v with
  | scalar s => simp [explicitIds, explicitId?]
  | list items => simp [explicitIds, explicitId?]
  | mapping entry =>
    simp only [Value.mapping.injEq, forall_eq', explicitId?]
    rw [explicitIds]
    split
    · rename_i hnull
      simp [hnull, nonemptyText?]
    · rename_i hnull
      split
      · -- something that is no id stands there
        rename_i hnone
        simp only [reduceCtorEq, false_iff, not_and]
        rintro (h | h)
        · exact absurd h hnull
        · obtain ⟨id, hid⟩ := exists_nonemptyText?_iff.mpr h
          rw [hnone] at hid
          cases hid
      · rename_i id hid
        have hname : IsName (Entries.field entry "id") := exists_nonemptyText?_iff.mp ⟨id, hid⟩
        split
        · rename_i hseen
          simp [hid, hseen]
        · rename_i hnew
          simp [hname, hid, hnew]

/-- The ids that are found are those that the entries give, and no two of them are the same. -/
theorem explicitIds_eq_ok : ∀ {index : Nat} {seen : List String} {vs : List Value}
    {ids : List String}, explicitIds index seen vs = .ok ids → seen.Nodup →
      ids = (vs.filterMap explicitId?).reverse ++ seen ∧ ids.Nodup
  | _, _, [], _, h, hseen => by
    obtain rfl := Except.ok.inj h
    exact ⟨rfl, hseen⟩
  | _, seen, v :: rest, ids, h, hseen => by
    obtain ⟨-, hnew, hrest⟩ := explicitIds_cons_eq_ok_iff.mp h
    cases hexplicit : explicitId? v with
    | none =>
      rw [hexplicit] at hrest
      rw [List.filterMap_cons_none hexplicit]
      exact explicitIds_eq_ok hrest hseen
    | some id =>
      rw [hexplicit] at hrest
      obtain ⟨hids, hnodup⟩ :=
        explicitIds_eq_ok hrest (List.nodup_cons.mpr ⟨hnew id hexplicit, hseen⟩)
      refine ⟨?_, hnodup⟩
      rw [List.filterMap_cons_some hexplicit, hids, List.reverse_cons, List.append_assoc]
      rfl

/-- Each edge that is read has an id that its entry gives or one that was not taken, and no two have
the same. -/
theorem nodup_ids_readEdges : ∀ {index : Nat} {taken : List String} {vs : List Value}
    {es : List Edge}, readEdges index taken vs = .ok es → (vs.filterMap explicitId?).Nodup →
      (∀ id ∈ vs.filterMap explicitId?, id ∈ taken) →
        (es.map Edge.id).Nodup ∧ ∀ e ∈ es, e.id ∈ vs.filterMap explicitId? ∨ e.id ∉ taken
  | _, _, [], _, h, _, _ => by
    obtain rfl := Except.ok.inj h
    exact ⟨List.nodup_nil, fun _ he => absurd he List.not_mem_nil⟩
  | index, taken, v :: rest, es, h, hnodup, htaken => by
    obtain ⟨e, es', hedge, hrest, rfl⟩ := readEdges_cons_eq_ok h
    obtain ⟨_, -, -, -, -, hid⟩ := readEdge_eq_ok hedge
    have hlater : rest.filterMap explicitId? ⊆ (v :: rest).filterMap explicitId? :=
      List.Sublist.subset ((List.sublist_cons_self v rest).filterMap explicitId?)
    -- the id of the first edge is its own, or free and so none of the later ones
    have hfirst : e.id ∉ rest.filterMap explicitId? ∧
        (e.id ∈ (v :: rest).filterMap explicitId? ∨ e.id ∉ taken) := by
      cases hexplicit : explicitId? v with
      | some id =>
        rw [hexplicit, Option.getD_some] at hid
        rw [List.filterMap_cons_some hexplicit] at hnodup ⊢
        rw [hid]
        exact ⟨(List.nodup_cons.mp hnodup).1, .inl List.mem_cons_self⟩
      | none =>
        rw [hexplicit, Option.getD_none] at hid
        have hfree : e.id ∉ taken := hid ▸ Edge.freeId_not_mem taken _
        exact ⟨fun hmem => hfree (htaken _ (hlater hmem)), .inr hfree⟩
    obtain ⟨hids, hfrom⟩ := nodup_ids_readEdges hrest
      (hnodup.sublist ((List.sublist_cons_self v rest).filterMap explicitId?))
      fun id hmem => List.mem_cons_of_mem _ (htaken id (hlater hmem))
    refine ⟨List.nodup_cons.mpr ⟨?_, hids⟩, ?_⟩
    · intro hmem
      obtain ⟨e', he', hsame⟩ := List.mem_map.mp hmem
      rcases hfrom e' he' with hown | hnew
      · exact hfirst.1 (hsame ▸ hown)
      · exact hnew (hsame ▸ List.mem_cons_self)
    · intro e' he'
      rcases List.mem_cons.mp he' with rfl | he'
      · exact hfirst.2
      · exact (hfrom e' he').imp (fun hown => hlater hown) fun hnew hmem =>
          hnew (List.mem_cons_of_mem _ hmem)

end Document

end CallFlow
