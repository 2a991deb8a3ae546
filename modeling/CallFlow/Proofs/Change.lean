import CallFlow.Flow.Edit
import CallFlow.Proofs.Except

/-!
# What an operation changes

`Flow.Change` has one rule for each operation of an editor and says which flow the operation makes
of a flow, and what was checked before. `Editor.Does` says what can come of an operation: a failure,
nothing, or such a change, which is counted. Whatever is to be shown of all operations is shown of
the changes, one by one.

* `Editor.does_apply`: every operation does what `Editor.Does` allows.
* `Editor.apply_cases`: it leaves the editor as it is, or changes the flow and counts one change.
* `Editor.apply_of_change`: it makes every change that there is a rule for.
* `Editor.run_keeps`: what the changes of some operations keep, a run of them keeps.
-/

namespace CallFlow

/-! ## New nodes -/

/-- A node passes its check if its position is one, and is not changed by it. -/
theorem Node.checked_eq_ok_iff {n m : Node} :
    n.checked = .ok m ↔ positionIssues n.position = [] ∧ n = m := by
  unfold checked
  split
  · rename_i hposition
    simp [hposition]
  · rename_i hposition
    simp only [reduceCtorEq, false_iff, not_and]
    exact fun h => absurd h hposition

/-- A position has no issues exactly if its keys are texts. -/
theorem Node.positionIssues_eq_nil_iff {position : Entries} :
    positionIssues position = [] ↔ ∀ e ∈ position, ∃ s, e.1 = .text s := by
  unfold positionIssues
  rw [List.filterMap_eq_nil_iff]
  refine forall_congr' fun e => imp_congr_right fun _ => ?_
  cases e.1 <;> simp

/-- The node of a request has the id that was chosen, a configuration that was read, and a position
under texts. -/
theorem NodeRequest.toNode_eq_ok {r : NodeRequest} {kind : BlockKind} {count : Nat} {n : Node}
    (h : r.toNode kind count = .ok n) : n.id = r.chosenId ∧
      (∃ c, Block.readKnown kind r.config = .ok c ∧ n.block = .known c) ∧
      Node.positionIssues n.position = [] := by
  unfold toNode at h
  obtain ⟨c, hconfig, h⟩ := Except.bind_eq_ok_iff.mp h
  obtain ⟨position, -, h⟩ := Except.bind_eq_ok_iff.mp h
  obtain ⟨hposition, rfl⟩ := Node.checked_eq_ok_iff.mp (Except.mapError_eq_ok_iff.mp h)
  exact ⟨rfl, ⟨c, Except.mapError_eq_ok_iff.mp hconfig, rfl⟩, hposition⟩

/-- The id of a new node is not empty, since an empty one that is asked for counts as none. -/
theorem NodeRequest.chosenId_ne_empty {r : NodeRequest} (h : r.fresh ≠ "") : r.chosenId ≠ "" := by
  unfold chosenId
  cases hid : r.id.filter (· ≠ "") with
  | none => exact h
  | some id => simpa using (Option.filter_eq_some_iff.mp hid).2

/-! ## Changes -/

/-- An operation makes one flow of another. -/
inductive Flow.Change (f : Flow) : Edit → Flow → Prop where
  | addNode {r : NodeRequest} {kind : BlockKind} {n : Node} {h : f.hasNode n.id = false}
      (hkind : BlockKind.ofValue r.blockType = .ok kind)
      (hnode : r.toNode kind f.nodes.length = .ok n) : Change f (.addNode r) (f.addNode n h)
  | updateConfig {id : String} {entries : Entries} {n : Node} {block : Block}
      (hnode : f.node? id = some n) (hblock : n.block.update entries = .ok block) :
      Change f (.updateConfig id (.mapping entries)) (f.replaceNode { n with block := block })
  | rename {id name : String} {n : Node} (hnode : f.node? id = some n) :
      Change f (.rename id name) (f.replaceNode { n with name := name })
  | move {id : String} {v : Value} {position : Entries} {n : Node}
      (hnode : f.node? id = some n) (hposition : v.entries = .ok position) :
      Change f (.move id v) (f.replaceNode { n with position := position })
  | remove {id : String} (hnode : f.hasNode id) : Change f (.remove id) (f.removeNode id)
  | connect {source target : String} {handle : Value} (hsource : f.hasNode source)
      (htarget : f.hasNode target) (hshort : Json.canWrite handle = true)
      (hfree : ∀ e ∈ f.edges, e.source = source → e.handle ≠ Editor.handleText handle) :
      Change f (.connect source target handle) (f.withEdges (f.edges ++
        [⟨Edge.freeId (f.edges.map Edge.id)
            (Edge.derivedId source target (Editor.handleText handle)),
          source, target, (Editor.handleText handle).filter (· ≠ "")⟩]))
  | disconnect {id : String} (hedge : ∃ e ∈ f.edges, e.id = id) :
      Change f (.disconnect id) (f.withEdges (f.edges.filter (·.id ≠ id)))
  | markStart {id : String} (hnode : f.hasNode id) :
      Change f (.markStart id) (f.withStart (some id))
  | clearStart (hstart : f.start ≠ none) : Change f .clearStart (f.withStart none)
  | importDocument {document : Value} {g : Flow} (hread : Document.toFlow document = .ok g) :
      Change f (.importDocument document) g
  | replaceWith {g : Flow} : Change f (.replaceWith g) g

/-! ## Operations -/

namespace Editor

variable (e : Editor)

/-- What an operation can do: fail or find nothing to do, and leave the editor as it is, or make a
change and count it. Only an update of a configuration may fail after its change, where the keys
that it was given cannot be put in order. -/
inductive Does (op : Edit) : Outcome → Prop where
  | failed (fault : EditFault) : Does op (e.fail fault)
  | kept : Does op e.keep
  | changed {f : Flow} (h : e.flow.Change op f) (result : EditResult) : Does op (e.change f result)
  | changedLate {f : Flow} {id : String} {entries : Entries} (h : e.flow.Change op f)
      (hop : op = .updateConfig id (.mapping entries)) (hkeys : comparable entries = false) :
      Does op (⟨f, e.version + 1⟩, .error .keysNotComparable)

/-- Adding a node changes the flow as it says, or fails. -/
theorem does_addNode (r : NodeRequest) : e.Does (.addNode r) (e.addNode r) := by
  unfold addNode
  split
  · exact .failed _
  · rename_i kind hkind
    split
    · exact .failed _
    · split
      · exact .failed _
      · rename_i n hnode
        split
        · exact .changed (.addNode hkind hnode) _
        · exact .failed _

/-- Updating a configuration changes the flow as it says, or fails. -/
theorem does_updateConfig (id : String) (more : Value) :
    e.Does (.updateConfig id more) (e.updateConfig id more) := by
  unfold updateConfig
  split
  · exact .failed _
  · rename_i n hnode
    split
    · split
      · exact .failed _
      · rename_i block hblock
        dsimp only
        split
        · exact .changed (.updateConfig hnode hblock) _
        · rename_i hkeys
          exact .changedLate (.updateConfig hnode hblock) rfl (by simpa using hkeys)
    · exact .failed _

/-- Renaming a node changes the flow as it says, or fails. -/
theorem does_rename (id name : String) : e.Does (.rename id name) (e.rename id name) := by
  unfold rename
  split
  · exact .failed _
  · rename_i n hnode
    exact .changed (.rename hnode) _

/-- Moving a node changes the flow as it says, or fails. -/
theorem does_move (id : String) (position : Value) :
    e.Does (.move id position) (e.move id position) := by
  unfold move
  split
  · exact .failed _
  · rename_i n hnode
    split
    · exact .failed _
    · rename_i position' hposition
      exact .changed (.move hnode hposition) _

/-- Removing a node changes the flow as it says, or fails. -/
theorem does_remove (id : String) : e.Does (.remove id) (e.remove id) := by
  unfold remove
  split
  · rename_i hnode
    exact .changed (.remove hnode) _
  · exact .kept

/-- Connecting two nodes changes the flow as it says, or fails. -/
theorem does_connect (source target : String) (handle : Value) :
    e.Does (.connect source target handle) (e.connect source target handle) := by
  unfold connect
  split
  · exact .failed _
  · rename_i hsource
    split
    · exact .failed _
    · rename_i htarget
      split
      · exact .failed _
      · rename_i hshort
        dsimp only
        split
        · exact .failed _
        · rename_i hfree
          refine .changed (.connect (by simpa using hsource) (by simpa using htarget)
            (by simpa using hshort) ?_) _
          simpa using hfree

/-- Removing an edge changes the flow as it says, or fails. -/
theorem does_disconnect (id : String) : e.Does (.disconnect id) (e.disconnect id) := by
  unfold disconnect
  split
  · rename_i hedge
    exact .changed (.disconnect (by simpa using hedge)) _
  · exact .kept

/-- Marking the start changes the flow as it says, or fails. -/
theorem does_markStart (id : String) : e.Does (.markStart id) (e.markStart id) := by
  unfold markStart
  split
  · rename_i hnode
    exact .changed (.markStart hnode) _
  · exact .failed _

/-- Clearing the start changes the flow as it says. -/
theorem does_clearStart : e.Does .clearStart e.clearStart := by
  unfold clearStart
  split
  · exact .kept
  · rename_i hstart
    exact .changed (.clearStart (by simpa using hstart)) _

/-- Importing a document changes the flow as it says, or fails. -/
theorem does_importDocument (document : Value) :
    e.Does (.importDocument document) (e.importDocument document) := by
  unfold importDocument
  split
  · exact .failed _
  · rename_i f hread
    exact .changed (.importDocument hread) _

/-- Each operation does one of these things. -/
theorem does_apply : ∀ op : Edit, e.Does op (e.apply op)
  | .addNode r => e.does_addNode r
  | .updateConfig id more => e.does_updateConfig id more
  | .rename id name => e.does_rename id name
  | .move id position => e.does_move id position
  | .remove id => e.does_remove id
  | .connect source target handle => e.does_connect source target handle
  | .disconnect id => e.does_disconnect id
  | .markStart id => e.does_markStart id
  | .clearStart => e.does_clearStart
  | .importDocument document => e.does_importDocument document
  | .replaceWith _ => .changed .replaceWith .done

/-- An operation leaves the editor as it is, or changes the flow and counts one change. -/
theorem apply_cases (op : Edit) : (e.apply op).1 = e ∨
    ∃ f, (e.apply op).1 = ⟨f, e.version + 1⟩ ∧ e.flow.Change op f := by
  have hdoes := e.does_apply op
  generalize e.apply op = outcome at hdoes
  cases hdoes with
  | failed fault => exact .inl rfl
  | kept => exact .inl rfl
  | changed h result => exact .inr ⟨_, rfl, h⟩
  | changedLate h hop hkeys => exact .inr ⟨_, rfl, h⟩

/-- Where what a change asks for is there, the operation makes the change and counts it. -/
theorem apply_of_change (e : Editor) {op : Edit} {f : Flow} (h : e.flow.Change op f) :
    (e.apply op).1 = ⟨f, e.version + 1⟩ := by
  cases h with
  | @addNode r kind n hnew hkind hnode =>
    have hid : n.id = r.chosenId := (NodeRequest.toNode_eq_ok hnode).1
    have hchosen : e.flow.hasNode r.chosenId = false := hid ▸ hnew
    simp [apply, addNode, change, hkind, hnode, hnew, hchosen]
  | @updateConfig id entries n block hnode hblock =>
    simp only [apply, updateConfig, hnode, hblock]
    split
    · rfl
    · rfl
  | rename hnode => simp [apply, rename, change, hnode]
  | move hnode hposition => simp [apply, move, change, hnode, hposition]
  | remove hnode => simp [apply, remove, change, hnode]
  | @connect source target handle hsource htarget hshort hfree =>
    have hnone : (e.flow.edges.any fun g => g.source = source && g.handle = handleText handle) =
        false := by
      simpa using hfree
    simp [apply, connect, change, hsource, htarget, hshort, hnone]
  | @disconnect id hedge =>
    have hsome : e.flow.edges.any (·.id = id) = true := by simpa using hedge
    simp [apply, disconnect, change, hsome]
  | markStart hnode => simp [apply, markStart, change, hnode]
  | clearStart hstart => simp [apply, clearStart, change, hstart]
  | importDocument hread => simp [apply, importDocument, change, hread]
  | replaceWith => rfl

/-- A run performs its first operation and then the others. -/
theorem run_cons (op : Edit) (rest : List Edit) : e.run (op :: rest) = (e.apply op).1.run rest := rfl

/-- What each change by some operations keeps, a run of them keeps, whether they fail or not. -/
theorem run_keeps {P : Flow → Prop} : ∀ {edits : List Edit} {e : Editor}, P e.flow →
    (∀ op ∈ edits, ∀ {f g : Flow}, f.Change op g → P f → P g) → P (e.run edits).flow
  | [], _, he, _ => he
  | op :: rest, e, he, hkeep => by
    have hstep : P (e.apply op).1.flow := by
      rcases e.apply_cases op with hsame | ⟨g, hg, hchange⟩
      · rwa [hsame]
      · rw [hg]
        exact hkeep op List.mem_cons_self hchange he
    exact run_keeps (e := (e.apply op).1) hstep fun op' hop =>
      hkeep op' (List.mem_cons_of_mem _ hop)

end Editor

/-! ## Flows made by editing -/

/-- An operation on one node, one edge or the start marker. The other operations put a flow from
elsewhere in the place of the one that is edited. -/
def Edit.isLocal : Edit → Bool
  | .importDocument _ | .replaceWith _ => false
  | _ => true

/-- The flow that operations make of the empty one. -/
def Flow.ofEdits (edits : List Edit) : Flow := ((Editor.ofFlow .empty).run edits).flow

/-- What holds of the empty flow and is kept by each change holds of what operations make of it. -/
theorem Flow.ofEdits_keeps {P : Flow → Prop} {edits : List Edit} (hempty : P .empty)
    (hkeep : ∀ op ∈ edits, ∀ {f g : Flow}, f.Change op g → P f → P g) : P (ofEdits edits) :=
  Editor.run_keeps hempty hkeep

end CallFlow
