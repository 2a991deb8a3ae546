import CallFlow.Document
import CallFlow.Proofs.LongNumbers
import CallFlow.Proofs.OutlineContents

/-!
# Which flows have an outline

An outline is meant for flows that are not finished, so it does not ask for much: edges may lead
nowhere, branches may be there twice, and where a call begins need not be clear. What it cannot do
without is that the handles of edges can be put in order, and that the entries of an unknown block
that stand under the name of the options are options (`Outline.ShowsOptions`). The latter holds for
documents of other versions by chance only.

* `Outline.mem_order_iff`: the nodes that are listed are those that edges lead to from the start, or
  all of them (`Outline.ComesTo`).
* `Outline.hasLines_iff`: when the lines of a node can be written.
* `Flow.outline_eq_ok_iff`: the outline of a flow is the page of its items.
* `Flow.exists_outline_iff`: which flows have one.
-/

namespace CallFlow

namespace Outline

variable {f : Flow} {a b id : String}

/-! ## The parts of an outline -/

/-- The edges between nodes in keypad order. -/
def sortedEdges (f : Flow) : List Edge := Keypad.sortBy Edge.handle (innerEdges f)

/-- The nodes that are listed, in order. -/
def listed (f : Flow) : List Node := (order f (sortedEdges f)).filterMap f.node?

/-- The items of an outline, one for each node that is listed. -/
def items (f : Flow) : List Item :=
  ((listed f).zipIdx 1).map fun p => item (sortedEdges f) p.2 p.1

/-- The nodes that are not listed. -/
def leftOver (f : Flow) : List Node := f.nodes.filter fun n => n.id ∉ order f (sortedEdges f)

/-- Sorting keeps the edges between nodes. -/
theorem mem_sortedEdges_iff {e : Edge} : e ∈ sortedEdges f ↔ e ∈ innerEdges f :=
  (Keypad.sortBy_perm Edge.handle (innerEdges f)).mem_iff

/-- An edge is between nodes if both of its ends are. -/
theorem mem_innerEdges_iff {e : Edge} :
    e ∈ innerEdges f ↔ e ∈ f.edges ∧ e.source ∈ f.ids ∧ e.target ∈ f.ids := by
  simp [innerEdges, Flow.hasNode_iff]

/-! ## The nodes that are listed -/

/-- An edge leads from one node to another. -/
def Leads (f : Flow) (a b : String) : Prop := ∃ e ∈ innerEdges f, e.source = a ∧ e.target = b

/-- The outline comes to a node: edges lead there from where a call begins, if that is clear. -/
def ComesTo (f : Flow) (id : String) : Prop :=
  ∀ start, f.resolveStart = some start → Relation.ReflTransGen (Leads f) start id

/-- The walk goes from a node to where edges between nodes lead. -/
theorem mem_successors_iff : b ∈ successors (sortedEdges f) a ↔ Leads f a b := by
  unfold successors Leads
  rw [mem_targets_iff]
  simp only [List.mem_filter, mem_sortedEdges_iff, decide_eq_true_eq, and_assoc]

/-- The nodes that are listed are those that the outline comes to. -/
theorem mem_order_iff (hid : id ∈ f.ids) : id ∈ order f (sortedEdges f) ↔ ComesTo f id := by
  unfold order ComesTo
  cases hresolve : f.resolveStart with
  | none => simpa using hid
  | some start =>
    have hclosed : ∀ x ∈ f.ids, ∀ y ∈ successors (sortedEdges f) x, y ∈ f.ids := by
      intro x _ y hy
      obtain ⟨e, he, -, rfl⟩ := mem_successors_iff.mp hy
      exact (mem_innerEdges_iff.mp he).2.2
    have hsteps : Traversal.Reaches (successors (sortedEdges f)) =
        Relation.ReflTransGen (Leads f) := by
      unfold Traversal.Reaches
      exact congrArg Relation.ReflTransGen (funext₂ fun x y => propext mem_successors_iff)
    have hmem : id ∈ Traversal.preorder (successors (sortedEdges f)) f.ids start ↔
        Traversal.Reaches (successors (sortedEdges f)) start id :=
      Traversal.mem_preorder_iff f.distinct hclosed (Flow.mem_ids_of_resolveStart hresolve)
    simpa [hsteps] using hmem

/-- The nodes that are listed are the nodes that the outline comes to. -/
theorem mem_listed_iff {n : Node} : n ∈ listed f ↔ n ∈ f.nodes ∧ ComesTo f n.id := by
  simp only [listed, List.mem_filterMap, Flow.node?_eq_some_iff]
  constructor
  · rintro ⟨_, hid, hn, rfl⟩
    exact ⟨hn, (mem_order_iff (List.mem_map_of_mem hn)).mp hid⟩
  · rintro ⟨hn, hcomes⟩
    exact ⟨n.id, (mem_order_iff (List.mem_map_of_mem hn)).mpr hcomes, hn, rfl⟩

/-! ## The lines of a node -/

/-- What stands under the name of the options among the entries of an unknown block are options, and
the line of each one that no edge leaves by can be written. -/
def ShowsOptions (f : Flow) (id : String) (entries : Entries) : Prop :=
  ∃ options, (entries.field "options").entriesOrEmpty = .ok options ∧
    ∀ o ∈ options, (∀ e ∈ innerEdges f, e.source = id → (handleKey e).same o.1 = false) →
      canWriteLine o

/-- The lines of an unknown block can be written if it shows its options. -/
theorem hasLines_iff_of_unknown {n : Node} {declared : String} {entries : Entries}
    (h : n.block = .unknown declared entries) :
    HasLines (sortedEdges f) n ↔ ShowsOptions f n.id entries := by
  unfold HasLines ShowsOptions openOptions
  rw [h, Block.options]
  simp only [List.mem_filter, Bool.not_eq_true', List.any_eq_false, mem_grouped_iff,
    mem_sortedEdges_iff, Bool.not_eq_true, and_imp]

/-- The lines of a node can be written if its kind is known, or if it shows its options. -/
theorem hasLines_iff {n : Node} : HasLines (sortedEdges f) n ↔
    ∀ declared entries, n.block = .unknown declared entries → ShowsOptions f n.id entries := by
  constructor
  · intro h declared entries hblock
    exact (hasLines_iff_of_unknown hblock).mp h
  · intro h
    cases hblock : n.block with
    | known c => exact hasLines_of_known _ hblock
    | unknown declared entries =>
      exact (hasLines_iff_of_unknown hblock).mpr (h declared entries hblock)

end Outline

namespace Flow

variable {f : Flow}

/-- The outline of a flow is the page of its items, if the handles between nodes are not too long
and the lines of all nodes that are listed can be written. -/
theorem outline_eq_ok_iff {text : String} : f.outline = .ok text ↔
    (∀ e ∈ Outline.innerEdges f, ¬ Keypad.isTooLong e.handle) ∧
    (∀ n ∈ Outline.listed f, Outline.HasLines (Outline.sortedEdges f) n) ∧
    text = Outline.page f (Outline.items f) (Outline.leftOver f) := by
  by_cases hshort : ∀ e ∈ Outline.innerEdges f, ¬ Keypad.isTooLong e.handle
  · have hsort : Keypad.sortBy? Edge.handle (Outline.innerEdges f) =
        some (Outline.sortedEdges f) := Keypad.sortBy?_of_short hshort
    have hpage : Outline.page f (Outline.items f) (Outline.leftOver f) =
        "\n".intercalate (Outline.title f :: ((((Outline.listed f).zipIdx 1).map fun p =>
          (Outline.item (Outline.sortedEdges f) p.2 p.1).lines f).flatten ++
            Outline.restLines f (Outline.order f (Outline.sortedEdges f)))) := by
      rw [Outline.page, Outline.items, Outline.leftOver, Outline.restLines_eq, List.flatMap_def,
        List.map_map]
      rfl
    rw [hpage]
    simp only [outline, hsort, Except.bind_eq_ok_iff, Outline.numberedLines_eq_ok_iff,
      Except.ok.injEq]
    constructor
    · rintro ⟨_, ⟨hlines, rfl⟩, rfl⟩
      exact ⟨hshort, hlines, rfl⟩
    · rintro ⟨-, hlines, rfl⟩
      exact ⟨_, ⟨hlines, rfl⟩, rfl⟩
  · have hsort : Keypad.sortBy? Edge.handle (Outline.innerEdges f) = none :=
      Keypad.sortBy?_of_isTooLong (by simpa using hshort)
    refine iff_of_false ?_ fun h => hshort h.1
    simp [outline, hsort]

/-- **Which flows have an outline.** A flow has an outline exactly if no handle of an edge between
nodes is a number with too many digits, and all unknown blocks that the outline comes to show their
options. It does not matter whether the flow may be compiled, and edges that lead nowhere, branches
that are there twice and blocks of known kinds never keep a flow from having one. -/
theorem exists_outline_iff (f : Flow) : (∃ text, f.outline = .ok text) ↔
    (∀ e ∈ Outline.innerEdges f, ¬ Keypad.isTooLong e.handle) ∧
    ∀ n ∈ f.nodes, Outline.ComesTo f n.id → ∀ declared entries,
      n.block = .unknown declared entries → Outline.ShowsOptions f n.id entries := by
  have hlines : (∀ n ∈ Outline.listed f, Outline.HasLines (Outline.sortedEdges f) n) ↔
      ∀ n ∈ f.nodes, Outline.ComesTo f n.id → ∀ declared entries,
        n.block = .unknown declared entries → Outline.ShowsOptions f n.id entries := by
    simp only [Outline.mem_listed_iff, Outline.hasLines_iff, and_imp]
  rw [← hlines]
  constructor
  · rintro ⟨_, htext⟩
    obtain ⟨hshort, hwritten, -⟩ := outline_eq_ok_iff.mp htext
    exact ⟨hshort, hwritten⟩
  · rintro ⟨hshort, hwritten⟩
    exact ⟨_, outline_eq_ok_iff.mpr ⟨hshort, hwritten, rfl⟩⟩

/-- A document with one block of an unknown kind, with the given value under the name of the
options. -/
def faxDocument (options : Value) : Value :=
  .mapping [(.text "nodes", .list [.mapping [(.text "id", .text "fax"),
    (.text "blockType", .text "fax"), (.text "name", .text "Fax"),
    (.text "config", .mapping [(.text "options", options)])]])]

/-- The node of the block. -/
def faxNode (options : Value) : Node :=
  ⟨"fax", "Fax", .unknown "fax" [(.text "options", options)], Node.origin⟩

/-- What is read from the document. -/
def faxFlow (options : Value) : Flow := ⟨[faxNode options], [], none, by simp⟩

/-- The document is read, whatever the value of the options. -/
theorem toFlow_faxDocument (options : Value) :
    Document.toFlow (faxDocument options) = .ok (faxFlow options) := rfl

/-- No check finds an error in the flow. -/
theorem compilable_faxFlow (options : Value) : (faxFlow options).validate.compilable := rfl

/-- An option that is a number with too many digits cannot be shown. -/
theorem outline_faxFlow_of_isTooLong {retries : Int} (h : Text.isTooLong retries) (text : String) :
    (faxFlow (.mapping [(.text "1", .int retries)])).outline ≠ .ok text := by
  generalize hoptions : (.mapping [(.text "1", .int retries)] : Value) = options
  intro htext
  have hlisted : faxNode options ∈ Outline.listed (faxFlow options) := List.mem_cons_self
  obtain ⟨-, hlines, -⟩ := outline_eq_ok_iff.mp htext
  obtain ⟨shown, hshown, hwritten⟩ :=
    (Outline.hasLines_iff_of_unknown rfl).mp (hlines _ hlisted)
  subst hoptions
  obtain rfl := Except.ok.inj hshown
  have hline := hwritten (.text "1", .int retries) List.mem_cons_self fun _ he => nomatch he
  rw [Outline.canWriteLine, Json.canWrite_scalar] at hline
  simp [Json.isShort, h] at hline

/-- The value of the options is a number, or one of them is a number with too many digits. Either
flow may be compiled as far as the checks go, and has no handles at all, but neither has an
outline. -/
theorem no_outline_fax :
    (Document.toFlow (faxDocument (.int 3)) = .ok (faxFlow (.int 3)) ∧
      (faxFlow (.int 3)).validate.compilable ∧ (faxFlow (.int 3)).edges = [] ∧
      (faxFlow (.int 3)).outline = .error (.options .wrongKind)) ∧
    ∃ options, options = .mapping [(.text "1", .int (10 ^ 4300))] ∧
      Document.toFlow (faxDocument options) = .ok (faxFlow options) ∧
      (faxFlow options).validate.compilable ∧ (faxFlow options).edges = [] ∧
      ∀ text, (faxFlow options).outline ≠ .ok text := by
  refine ⟨⟨toFlow_faxDocument _, compilable_faxFlow _, rfl, by decide +kernel⟩, _, rfl,
    toFlow_faxDocument _, compilable_faxFlow _, rfl, ?_⟩
  exact outline_faxFlow_of_isTooLong (Document.isTooLong_pow (by decide))

end Flow

end CallFlow
