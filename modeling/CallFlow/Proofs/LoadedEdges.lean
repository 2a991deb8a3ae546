import CallFlow.Proofs.AcceptedDocuments

/-!
# The edges of a document

A document that is read gives one edge for each of its entries for edges, in the same order. What an
entry gives is kept: the ends of the edge, and the id if there is one. An edge whose entry gives no
id gets the first candidate for its ends and its handle that no entry of the document gives, also
none that comes later, and that no edge before it has (`Document.EdgeOf`).

* `Document.edgeOf_readEdge`: one entry, beside the ids that are taken.
* `Document.edgeOf_readEdges`: a list of entries, where each edge takes its id.
* `Document.edges_toFlow`: a document.
-/

namespace CallFlow.Document

/-- The edge of an entry, where some ids are taken. It has the ends and the handle of the entry, and
the id that the entry gives, or else that at which the search for a free one ends. -/
structure EdgeOf (taken : List String) (entry : Entries) (e : Edge) : Prop where
  source : entry.field "source" = .text e.source
  target : entry.field "target" = .text e.target
  handle : readHandle (entry.field "sourceHandle") = .ok e.handle
  id : entry.field "id" = .text e.id ∨ entry.field "id" = .null ∧
    ∃ n, Edge.EndsAt taken (Edge.derivedId e.source e.target e.handle) n ∧
      e.id = Edge.candidate (Edge.derivedId e.source e.target e.handle) n

variable {index : Nat} {taken taken' : List String}

/-- It only matters which ids are taken, not in which order. -/
theorem EdgeOf.congr {entry : Entries} {e : Edge} (h : EdgeOf taken entry e)
    (hsame : ∀ id, id ∈ taken ↔ id ∈ taken') : EdgeOf taken' entry e where
  source := h.source
  target := h.target
  handle := h.handle
  id := by
    rcases h.id with hgiven | ⟨hnull, n, hends, hid⟩
    · exact .inl hgiven
    · exact .inr ⟨hnull, n, hends.congr hsame, hid⟩

/-- An edge that is read from an entry is the edge of the entry. -/
theorem edgeOf_readEdge {v : Value} {e : Edge} (hgives : GivesId v)
    (h : readEdge index taken v = .ok e) : ∃ entry, v = .mapping entry ∧ EdgeOf taken entry e := by
  obtain ⟨entry, rfl, hsource, htarget, hhandle, hid⟩ := readEdge_eq_ok h
  refine ⟨entry, rfl, ?_⟩
  constructor
  · exact (nonemptyText?_eq_some_iff.mp hsource).1
  · exact (nonemptyText?_eq_some_iff.mp htarget).1
  · exact hhandle
  · rcases hgives entry rfl with hnull | hname
    · right
      obtain ⟨n, -, hends⟩ :=
        Edge.exists_endsAt taken (Edge.derivedId e.source e.target e.handle)
      refine ⟨hnull, n, hends, ?_⟩
      rw [hid, ← hends.freeId_eq]
      simp [explicitId?, hnull, nonemptyText?]
    · left
      obtain ⟨id, hgiven⟩ := exists_nonemptyText?_iff.mpr hname
      have hexplicit : explicitId? (.mapping entry) = some id := hgiven
      rw [hexplicit, Option.getD_some] at hid
      rw [hid]
      exact (nonemptyText?_eq_some_iff.mp hgiven).1

/-- Edges are read from a list one by one. Each is the edge of its entry beside the ids that were
taken before and those of the edges before it. -/
theorem edgeOf_readEdges : ∀ {vs : List Value} {index : Nat} {taken : List String} {es : List Edge},
    (∀ v ∈ vs, GivesId v) → readEdges index taken vs = .ok es →
      vs.length = es.length ∧ ∀ i e, es[i]? = some e → ∃ entry, vs[i]? = some (.mapping entry) ∧
        EdgeOf ((es.take i).map Edge.id ++ taken) entry e
  | [], _, _, es, _, h => by
    obtain rfl := Except.ok.inj h
    exact ⟨rfl, fun i e he => by simp at he⟩
  | v :: rest, index, taken, es, hgives, h => by
    obtain ⟨hv, hgives⟩ := List.forall_mem_cons.mp hgives
    obtain ⟨first, es', hfirst, hrest, rfl⟩ := readEdges_cons_eq_ok h
    obtain ⟨hlength, hedges⟩ := edgeOf_readEdges hgives hrest
    refine ⟨congrArg (· + 1) hlength, ?_⟩
    intro i e he
    cases i with
    | zero =>
      obtain rfl : first = e := by simpa using he
      obtain ⟨entry, rfl, hedge⟩ := edgeOf_readEdge hv hfirst
      exact ⟨entry, rfl, hedge⟩
    | succ i =>
      obtain ⟨entry, hentry, hedge⟩ := hedges i e (by simpa using he)
      refine ⟨entry, by simpa using hentry, hedge.congr ?_⟩
      intro id
      simp only [List.take_succ_cons, List.map_cons, List.mem_append, List.mem_cons]
      tauto

/-- **The ids of edges.** A document that is read has one entry for each edge of its flow, in the
same order, and each edge is the edge of its entry. Where the entry gives an id, the edge has that
id. Where it gives none, the edge has the first candidate for its ends and its handle that is
neither given in any entry of the document nor the id of an edge before. No two edges have the same
id, and the search for a free one always ends, whatever ids are taken. -/
theorem edges_toFlow {document : Value} {f : Flow} (h : toFlow document = .ok f) :
    (∃ entries rawEdges, document = .mapping entries ∧
      IsTaken (Entries.field entries "edges") rawEdges ∧ rawEdges.length = f.edges.length ∧
      ∀ i e, f.edges[i]? = some e → ∃ entry, rawEdges[i]? = some (.mapping entry) ∧
        EdgeOf ((f.edges.take i).map Edge.id ++ rawEdges.filterMap explicitId?) entry e) ∧
    (f.edges.map Edge.id).Nodup ∧
    ∀ (taken : List String) (base : String), ∃ n ≤ taken.length, Edge.EndsAt taken base n := by
  refine ⟨?_, (normal_of_toFlow h).edgeIds, Edge.exists_endsAt⟩
  obtain ⟨entries, rawNodes, rawEdges, taken, rfl, -, hraw, -, -, htaken, hedges⟩ :=
    toFlow_eq_ok_iff.mp h
  obtain ⟨hgives, -, -⟩ := exists_explicitIds_iff.mp ⟨taken, htaken⟩
  obtain ⟨hlength, hread⟩ := edgeOf_readEdges hgives hedges
  refine ⟨entries, rawEdges, rfl, listOrEmpty?_eq_some_iff.mp hraw, hlength, ?_⟩
  intro i e he
  obtain ⟨entry, hentry, hedge⟩ := hread i e he
  refine ⟨entry, hentry, hedge.congr ?_⟩
  -- the ids that were found first are those that the entries give, last one first
  obtain ⟨rfl, -⟩ := explicitIds_eq_ok htaken List.nodup_nil
  intro id
  simp

/-- A document in which ids that are given, also later ones, are the first candidates of others, and
in which two pairs of ends have the same candidates. -/
def crossedDocument : Value :=
  .mapping [(.text "edges", .list [
    .mapping [(.text "source", .text "a"), (.text "target", .text "b")],
    .mapping [(.text "source", .text "a"), (.text "target", .text "b"), (.text "id", .null)],
    .mapping [(.text "id", .text "e-a-b"), (.text "source", .text "b"), (.text "target", .text "a")],
    .mapping [(.text "source", .text "a-1"), (.text "target", .text "b")],
    .mapping [(.text "source", .text "a"), (.text "sourceHandle", .int 1),
      (.text "target", .text "b")],
    .mapping [(.text "id", .text "e-a-b-2"), (.text "source", .text "a"),
      (.text "target", .text "b")]])]

/-- Each edge of the document has an id of its own, and those that are given are kept. -/
theorem edges_toFlow_crossed : ∃ f, toFlow crossedDocument = .ok f ∧
    f.edges = [⟨"e-a-b-3", "a", "b", none⟩, ⟨"e-a-b-4", "a", "b", none⟩, ⟨"e-a-b", "b", "a", none⟩,
      ⟨"e-a-1-b", "a-1", "b", none⟩, ⟨"e-a-1-b-2", "a", "b", some "1"⟩,
      ⟨"e-a-b-2", "a", "b", none⟩] ∧
    (f.edges.map Edge.id).Nodup := by
  obtain ⟨f, hread⟩ : ∃ f, toFlow crossedDocument = .ok f := ⟨_, rfl⟩
  obtain ⟨-, hnodup, -⟩ := edges_toFlow hread
  refine ⟨f, hread, ?_, hnodup⟩
  obtain rfl := Except.ok.inj hread
  decide +kernel

end CallFlow.Document
