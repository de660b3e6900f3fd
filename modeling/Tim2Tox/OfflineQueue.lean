import Mathlib.Tactic.Common

set_option autoImplicit false

/-!
# The offline message queue

Text items, the mutations `OfflineMessageQueuePersistence` makes to them, and
what a mutation does to the items of one message.
-/
namespace Tim2Tox.OfflineQueue

inductive Conversation where
  | peer (id : String)
  | group (id : String)
  deriving DecidableEq

inductive ContentKind where
  | normal
  | action
  | custom
  deriving DecidableEq

/-- A msgID stands for one message: every queue item and history row that carries it has the
    same content. -/
structure Message where
  msgID : String
  conversation : Conversation
  text : String
  timestamp : ℕ
  cloudCustomData : Option String := none
  contentKind : ContentKind := .normal
  deriving DecidableEq

/-- `OfflineSendControl`; a plain queued send has none. -/
inductive Control where
  | retry
  | cancelled
  | failed
  deriving DecidableEq

structure Item where
  message : Message
  control : Option Control := none
  deriving DecidableEq

def dispatchable (control : Option Control) : Bool := control = none || control = some .retry

inductive Mutation where
  | addMessage (item : Item)
  | removeItem (item : Item)
  | replaceItem (old updated : Item)
  deriving DecidableEq

/-- A mutation of an item that is no longer queued writes nothing. -/
def Mutation.applies (queue : List Item) : Mutation → Bool
  | .addMessage _ => true
  | .removeItem item => item ∈ queue
  | .replaceItem old _ => old ∈ queue

def Mutation.apply (queue : List Item) : Mutation → List Item
  | .addMessage item => queue ++ [item]
  | .removeItem item => queue.erase item
  | .replaceItem old updated => queue.replace old updated

/-! ## The items of one message -/

/-- The controls under which a message is queued, in order. -/
def controls (m : Message) (queue : List Item) : List (Option Control) :=
  (queue.filter fun item => item.message = m).map Item.control

@[simp] theorem controls_nil (m : Message) : controls m [] = [] := rfl

theorem controls_cons (m : Message) (item : Item) (queue : List Item) :
    controls m (item :: queue) =
      if item.message = m then item.control :: controls m queue else controls m queue := by
  unfold controls
  rw [List.filter_cons]
  by_cases h : item.message = m <;> simp [h]

theorem controls_append (m : Message) (queue queue' : List Item) :
    controls m (queue ++ queue') = controls m queue ++ controls m queue' := by
  simp [controls]

theorem mem_controls {item : Item} {queue : List Item} :
    item.control ∈ controls item.message queue ↔ item ∈ queue := by
  unfold controls
  simp only [List.mem_map, List.mem_filter, decide_eq_true_eq]
  constructor
  · rintro ⟨other, ⟨hmem, hmsg⟩, hctl⟩
    obtain rfl : other = item := by
      cases other
      cases item
      simp_all
    exact hmem
  · exact fun h => ⟨item, ⟨h, rfl⟩, rfl⟩

theorem controls_erase (m : Message) (item : Item) (queue : List Item) :
    controls m (queue.erase item) =
      if item.message = m then (controls m queue).erase item.control else controls m queue := by
  induction queue with
  | nil => simp
  | cons other queue ih =>
    rw [List.erase_cons, controls_cons]
    by_cases heq : other = item
    · subst heq
      by_cases hm : other.message = m <;> simp [hm]
    · have hbeq : (other == item) = false := by simpa using heq
      rw [hbeq, if_neg (by simp), controls_cons, ih]
      by_cases hi : item.message = m <;> by_cases ho : other.message = m <;> simp only [hi, ho, if_true, if_false]
      have hctl : other.control ≠ item.control := by
        intro hctl
        apply heq
        cases other
        cases item
        simp_all
      rw [List.erase_cons_tail (by simpa using hctl)]

theorem controls_replace (m : Message) {old updated : Item} (queue : List Item)
    (hmsg : updated.message = old.message) :
    controls m (queue.replace old updated) =
      if old.message = m then (controls m queue).replace old.control updated.control
      else controls m queue := by
  induction queue with
  | nil => simp [List.replace]
  | cons other queue ih =>
    rw [List.replace_cons, controls_cons]
    by_cases heq : old = other
    · subst heq
      by_cases hm : old.message = m <;> simp [hm, controls_cons, hmsg]
    · have hbeq : (old == other) = false := by simpa using heq
      rw [hbeq]
      simp only [controls_cons, ih]
      by_cases hi : old.message = m <;> by_cases ho : other.message = m <;> simp only [hi, ho, if_true, if_false]
      · have hctl : old.control ≠ other.control := by
          intro hctl
          apply heq
          cases old
          cases other
          simp_all
        have hbeq' : (old.control == other.control) = false := by simpa using hctl
        simp [List.replace_cons, hbeq']

end Tim2Tox.OfflineQueue
