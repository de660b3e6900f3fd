import Mathlib.Data.List.Sort
import Tim2Tox.KeyedTables
import Tim2Tox.LabelledRuns

set_option autoImplicit false

/-!
# Durable callbacks

`SendDurableCallbackToDart` posts a message or holds the latest one of its key until a port is
there. Beside the state of the bridge stands what was sent, what reached Dart and what was dropped:
messages are numbered in the order they were sent. A post to a registered port fails exactly when
the message is too long. Every call holds the port's lock, so a run is a sequence of calls.
-/
namespace Tim2Tox.CallbackBridge
open KeyedTables LabelledRuns

/-- The bytes of a `std::string`. -/
abbrev Bytes : Type := List UInt8

def illegalPort : ℤ := -1
def kMaxPendingDurable : ℕ := 4096
def maxMessageLength : ℕ := 1024 * 1024

/-- A held message; `number` is the one it was sent under. -/
structure PendingDurableCallback where
  seq : ℕ
  json : Bytes
  ownerInstanceId : ℤ
  number : ℕ

structure Sent where
  key : Bytes
  json : Bytes
  ownerInstanceId : ℤ

structure Post where
  number : ℕ
  key : Bytes
  json : Bytes
  port : ℤ

structure Bridge where
  dartPort : ℤ := illegalPort
  dartApiInitialized : Bool := false
  pendingDurable : AList fun _ : Bytes => PendingDurableCallback := ∅
  pendingDurableSeq : ℕ := 0
  sent : List Sent := []
  posts : List Post := []
  dropped : List ℕ := []

/-- `PostJsonToDartLocked` succeeds. -/
def fits (json : Bytes) : Bool := json.length ≤ maxMessageLength

namespace Bridge

def ready (b : Bridge) : Bool := b.dartApiInitialized && b.dartPort ≠ illegalPort

def post (b : Bridge) (number : ℕ) (key json : Bytes) : Bridge :=
  { b with
    pendingDurable := b.pendingDurable.erase key
    posts := b.posts ++ [{ number, key, json, port := b.dartPort }] }

/-- The held message with the smallest sequence number, as the loop over the map finds it. -/
def oldest : List (Sigma fun _ : Bytes => PendingDurableCallback) →
    Option (Sigma fun _ : Bytes => PendingDurableCallback)
  | [] => none
  | first :: rest => some (rest.foldl (fun old cur => if cur.2.seq < old.2.seq then cur else old) first)

def evictOldest (b : Bridge) : Bridge :=
  match oldest b.pendingDurable.entries with
  | none => b
  | some entry =>
    { b with
      pendingDurable := b.pendingDurable.erase entry.1
      dropped := b.dropped ++ [entry.2.number] }

/-- Hold a message under its key, in the place of the one held before or in a place of its own. -/
def hold (b : Bridge) (number : ℕ) (key json : Bytes) (ownerInstanceId : ℤ) : Bridge :=
  let b := if key ∉ b.pendingDurable ∧ b.pendingDurable.keys.length ≥ kMaxPendingDurable then
      b.evictOldest
    else b
  { b with
    pendingDurableSeq := b.pendingDurableSeq + 1
    pendingDurable := b.pendingDurable.insert key
      { seq := b.pendingDurableSeq + 1, json, ownerInstanceId, number } }

def sendDurableCallbackToDart (b : Bridge) (callbackType : Option Bytes) (json key : Bytes)
    (ownerInstanceId : ℤ) : Bridge :=
  if callbackType.isNone then b
  else
    let number := b.sent.length
    let b : Bridge := { b with sent := b.sent ++ [⟨key, json, ownerInstanceId⟩] }
    if b.ready && fits json then b.post number key json else b.hold number key json ownerInstanceId

def discardDurableCallbacksForInstance (b : Bridge) (ownerInstanceId : ℤ) : Bridge :=
  let gone := b.pendingDurable.entries.filter fun entry => entry.2.ownerInstanceId = ownerInstanceId
  { b with
    pendingDurable := eraseAll (gone.map Sigma.fst) b.pendingDurable
    dropped := b.dropped ++ gone.map fun entry => entry.2.number }

/-- The keys in the order of their sequence numbers. -/
def ordered (b : Bridge) : List Bytes :=
  ((b.pendingDurable.entries.map fun entry => (entry.2.seq, entry.1)).insertionSort
    fun a c => a.1 ≤ c.1).map Prod.snd

/-- Post what is held under the keys, up to the first post that fails. -/
def replay : List Bytes → Bridge → Bridge
  | [], b => b
  | key :: keys, b =>
    match b.pendingDurable.lookup key with
    | none => replay keys b
    | some held => if fits held.json then replay keys (b.post held.number key held.json) else b

def replayPendingDurable (b : Bridge) : Bridge := if b.ready then replay b.ordered b else b

def dartRegisterSendPort (b : Bridge) (sendPort : ℤ) : Bridge :=
  { b with dartPort := sendPort }.replayPendingDurable

def dartUnregisterSendPort (b : Bridge) (sendPort : ℤ) : Bridge :=
  if b.dartPort = sendPort then { b with dartPort := illegalPort } else b

/-- `data` is given and the initialisation of the API returned `rc`. -/
def dartInitDartApiDL (b : Bridge) (data : Bool) (rc : ℤ) : ℤ × Bridge :=
  if !data then (1, b)
  else if rc ≠ 0 then (1, b)
  else (0, { b with dartApiInitialized := true }.replayPendingDurable)

end Bridge

inductive Op where
  | send (callbackType : Option Bytes) (json key : Bytes) (ownerInstanceId : ℤ)
  | discard (ownerInstanceId : ℤ)
  | register (sendPort : ℤ)
  | unregister (sendPort : ℤ)
  | init (data : Bool) (rc : ℤ)

def Bridge.after (b : Bridge) : Op → Bridge
  | .send callbackType json key ownerInstanceId =>
    b.sendDurableCallbackToDart callbackType json key ownerInstanceId
  | .discard ownerInstanceId => b.discardDurableCallbacksForInstance ownerInstanceId
  | .register sendPort => b.dartRegisterSendPort sendPort
  | .unregister sendPort => b.dartUnregisterSendPort sendPort
  | .init data rc => (b.dartInitDartApiDL data rc).2

def Bridge.step (b : Bridge) (op : Op) : Option Bridge := some (b.after op)

/-! ## Which message is the last of its key -/

/-- The last message sent under a key has this number. -/
def LastSend (sent : List Sent) (key : Bytes) (n : ℕ) : Prop :=
  (sent[n]?).map Sent.key = some key ∧ ∀ m, n < m → (sent[m]?).map Sent.key ≠ some key

theorem lastSend_snoc_same (sent : List Sent) (s : Sent) (n : ℕ) :
    LastSend (sent ++ [s]) s.key n ↔ n = sent.length := by
  constructor
  · intro h
    rcases Nat.lt_trichotomy n sent.length with hlt | heq | hgt
    · have hlater := h.2 sent.length hlt
      simp at hlater
    · exact heq
    · have hnone : (sent ++ [s])[n]? = none := by
        rw [List.getElem?_eq_none_iff, List.length_append, List.length_singleton]
        omega
      have hfirst := h.1
      rw [hnone] at hfirst
      contradiction
  · rintro rfl
    refine ⟨by simp, fun m hm => ?_⟩
    have hnone : (sent ++ [s])[m]? = none := by
      rw [List.getElem?_eq_none_iff, List.length_append, List.length_singleton]
      omega
    rw [hnone]
    simp

theorem getElem?_snoc_key {sent : List Sent} {s : Sent} {key : Bytes} (hkey : s.key ≠ key) (n : ℕ) :
    ((sent ++ [s])[n]?).map Sent.key = some key ↔ (sent[n]?).map Sent.key = some key := by
  rcases Nat.lt_trichotomy n sent.length with hlt | heq | hgt
  · rw [List.getElem?_append_left hlt]
  · subst heq
    simp [hkey]
  · have hnone : (sent ++ [s])[n]? = none := by
      rw [List.getElem?_eq_none_iff, List.length_append, List.length_singleton]
      omega
    have hnone' : sent[n]? = none := List.getElem?_eq_none_iff.mpr (by omega)
    rw [hnone, hnone']

theorem lastSend_snoc_other {sent : List Sent} {s : Sent} {key : Bytes} (hkey : s.key ≠ key)
    (n : ℕ) : LastSend (sent ++ [s]) key n ↔ LastSend sent key n := by
  unfold LastSend
  simp only [getElem?_snoc_key hkey, ne_eq]

end Tim2Tox.CallbackBridge
