/-!
# Kinds of call blocks

The ten kinds of blocks a call flow is built from, their names, and the two classes of kinds that
the rules on edges speak of: branching blocks, where the caller chooses an option, and terminal
blocks, which end the call.
-/

namespace CallFlow

/-- What a block does in a call. -/
inductive BlockKind where
  /-- Plays a message. -/
  | prompt
  /-- Asks for a key. -/
  | key
  /-- Hands the call over to a destination. -/
  | transfer
  /-- Ends the call. -/
  | hangup
  /-- Asks another service. -/
  | api
  /-- Records the caller. -/
  | record
  /-- Asks for a language. -/
  | language
  /-- Leads into a menu that is described elsewhere. -/
  | menu
  /-- Puts the caller into a queue. -/
  | queue
  /-- Sends the caller to a mailbox. -/
  | voicemail
  deriving DecidableEq, Repr

namespace BlockKind

/-- All kinds. -/
def all : List BlockKind :=
  [prompt, key, transfer, hangup, api, record, language, menu, queue, voicemail]

/-- The name of a kind in documents and messages. -/
def name : BlockKind → String
  | prompt => "prompt"
  | key => "key"
  | transfer => "transfer"
  | hangup => "hangup"
  | api => "api"
  | record => "record"
  | language => "language"
  | menu => "menu"
  | queue => "queue"
  | voicemail => "voicemail"

/-- The kind with the given name. -/
def ofName? (s : String) : Option BlockKind := all.find? (·.name = s)

/-- The caller chooses one of several options. -/
def isBranching : BlockKind → Bool
  | key | language => true
  | _ => false

/-- The call ends here, as far as the flow is concerned. -/
def isTerminal : BlockKind → Bool
  | transfer | hangup | queue | voicemail => true
  | _ => false

/-- A kind is found by its name. -/
@[simp] theorem ofName?_name (k : BlockKind) : ofName? k.name = some k := by cases k <;> decide

/-- A name is that of a kind exactly if the kind is found under it. -/
theorem ofName?_eq_some_iff {s : String} {k : BlockKind} : ofName? s = some k ↔ s = k.name := by
  constructor
  · intro h
    have := List.find?_some h
    simpa using (of_decide_eq_true this).symm
  · rintro rfl
    exact ofName?_name k

end BlockKind

end CallFlow
