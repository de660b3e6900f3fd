import Tim2Tox.SendControl

set_option autoImplicit false

/-!
# The trail of one message

What holds of one message while tasks work on it: who may act on it, what the waiting tasks rely
on, and where its row already says that it failed or was cancelled.
-/
namespace Tim2Tox.SendControl
open OfflineQueue LabelledRuns

/-! ## Tasks seen from one message -/

/-- What the task awaits for the message. -/
def Task.focus (m : Message) : Task → Option (Stage × Option Control)
  | .on stage item _ _ => if item.message = m then some (stage, item.control) else none
  | _ => none

/-- The task is a drain that has claimed the message. -/
def Task.claims (m : Message) : Task → Bool
  | .ready d => m ∈ d.claimed
  | .on _ _ (some d) _ => m ∈ d.claimed
  | _ => false

/-- The task is a call for the message. -/
def Task.calls (m : Message) : Task → Bool
  | .on _ item none _ => item.message = m
  | _ => false

def Task.holds (m : Message) (t : Task) : Bool := t.claims m || t.calls m

/-- Only a call queues, cancels or retries a message. -/
def Stage.drains (s : Stage) : Bool := !(s = .adding || s = .cancelling || s = .retrying)

def Save.isWaiting : Save → Bool
  | .waiting => true
  | _ => false

/-- The stages of a drain and of a call, and those with a save. -/
def Task.served : Task → Bool
  | .on s _ drain save => (drain.isNone || s.drains) && (save.isWaiting || s.saves)
  | _ => true

/-- The row of the message in the rows the task is about to save. -/
def Task.row (m : Message) : Task → Option (Option Row)
  | .background c (.taken rows) => if c = m.conversation then some (rows m) else none
  | .on stage item _ (.taken rows) =>
    if stage.saves = true ∧ item.message.conversation = m.conversation then some (rows m) else none
  | _ => none

/-- The task settles the tombstone of a cancel. -/
def Task.settles (m : Message) (t : Task) : Bool :=
  t.focus m = some (.settling, some .cancelled) || t.focus m = some (.unqueueing, some .cancelled)

def Task.landed : Task → Bool
  | .background _ .landed => true
  | .on _ _ _ .landed => true
  | _ => false

/-- The task that runs now. -/
inductive Hand where
  | nobody
  | call (m : Message)
  | drain (d : Drain)

def Hand.claims (m : Message) : Hand → Bool
  | .drain d => m ∈ d.claimed
  | _ => false

def Hand.calls (m : Message) : Hand → Bool
  | .call x => x = m
  | _ => false

def Hand.holds (m : Message) (hand : Hand) : Bool := hand.claims m || hand.calls m

/-- The hand of a task that was waiting: a message is queued without any guard. -/
def handOf (stage : Stage) (item : Item) : Option Drain → Hand
  | some d => .drain d
  | none => if stage = .adding then .nobody else .call item.message

/-! ## Rows on their way to the file -/

def IsCancelled (ρ : Option Row) : Prop := ρ.any Row.isCancelled = true

/-- The row says that the message failed or was cancelled. -/
def SaysSo (ρ : Option Row) : Prop := (ρ.any fun r => r.isFailed || r.isCancelled) = true

def Sent (w : World) (m : Message) : Prop := .native m true ∈ w.log

def Fine (w : World) (m : Message) (ρ : Option Row) : Prop := Sent w m ∨ SaysSo ρ

/-- The file, the list in memory and every save under way. -/
def Everywhere (φ : Option Row → Prop) (m : Message) (w : World) : Prop :=
  φ (w.historyFile m) ∧ φ (w.rows m) ∧ ∀ t ∈ w.tasks, ∀ ρ, t.row m = some ρ → φ ρ

def Clean (m : Message) (w : World) : Prop := Everywhere (fun ρ => ¬IsCancelled ρ) m w

/-- A receipt is about a message that went out. -/
def Honest (w : World) (m : Message) (ρ : Option Row) : Prop :=
  ρ.any Row.deliveryProven = true → Sent w m

/-! ## The invariant -/

/-- At most one task acts on the message: a drain that claimed it, or a call. -/
structure Held (m : Message) (w : World) (hand : Hand) : Prop where
  excl : w.tasks.countP (Task.holds m) + (hand.holds m).toNat ≤ 1
  claimed : w.claimedSends m = true ↔ (∃ t ∈ w.tasks, t.claims m = true) ∨ hand.claims m = true
  ops : ∀ t ∈ w.tasks, t.calls m = true → (∀ c, t.focus m ≠ some (.adding, c)) →
    w.sendControlOps m = true
  opsHand : hand.calls m = true → w.sendControlOps m = true
  unknown : w.known m = false → w.tasks.countP (Task.holds m) + (hand.holds m).toNat = 0
  served : ∀ t ∈ w.tasks, t.served = true

/-- What a task that waits for the message relies on. -/
def Waits (m : Message) (w : World) (t : Task) (c : Option Control) : Stage → Prop
  | .adding => t.calls m = true
  | .cancelling => t.calls m = true ∧ controls m w.cache = [c] ∧ dispatchable c = true ∧
      w.dispatchedSends m = false
  | .retrying => t.calls m = true ∧ Clean m w ∧
      (c = some .failed ∧ (controls m w.cache = [] ∨ controls m w.cache = [some .failed]) ∨
        c = some .retry ∧ controls m w.cache = [])
  | .settling =>
    c = some .cancelled ∧ IsCancelled (w.rows m) ∧ (∀ ρ, t.row m = some ρ → IsCancelled ρ) ∧
        (t.landed = true → IsCancelled (w.historyFile m)) ∨
      c = some .failed ∧ t.calls m = false ∧ controls m w.cache ≠ [none] ∧
        (controls m w.cache = [some .failed] →
          Fine w m (w.rows m) ∧ (∀ ρ, t.row m = some ρ → Fine w m ρ) ∧
            (t.landed = true → Fine w m (w.historyFile m)))
  | .unqueueing =>
    c = some .cancelled ∧ Everywhere IsCancelled m w ∨
      c = some .failed ∧ t.calls m = false ∧
        (controls m w.cache = [some .failed] → Everywhere (Fine w m) m w)
  | .dropping => dispatchable c = true ∧ (w.dispatchedSends m = true ∨ IsCancelled (w.rows m))
  | .discarding => m.text = ""
  | .loading | .clearing => t.claims m = true ∧ c = some .retry ∧
      controls m w.cache = [some .retry] ∧ w.dispatchedSends m = false
  | .removing _ | .reremoving | .reconciling => t.claims m = true ∧ dispatchable c = true ∧
      w.dispatchedSends m = true
  | .failing => t.claims m = true ∧ controls m w.cache = [c] ∧ dispatchable c = true ∧
      w.dispatchedSends m = false

/-- What holds of two waiting tasks, the first of which suspended first. -/
structure Order (m : Message) (w : World) (a b : Task) : Prop where
  settled : a.focus m = some (.settling, some .failed) → controls m w.cache = [some .failed] →
    ∀ ρ, b.row m = some ρ → Fine w m ρ
  cancelled : a.focus m = some (.settling, some .cancelled) → ∀ ρ, b.row m = some ρ → IsCancelled ρ
  cleared : ∀ c, a.focus m = some (.clearing, c) → b.focus m ≠ some (.settling, some .failed)
  failed : ∀ c, a.focus m = some (.failing, c) → b.focus m ≠ some (.unqueueing, some .failed)
  first : b.landed = true → ∀ conv, b.savesTo conv = true → a.savesTo conv = false

/-- Nobody knows the message, or it is about to be queued. -/
def Fresh (m : Message) (w : World) : Prop :=
  w.known m = false ∨ ∃ t ∈ w.tasks, ∃ c, t.focus m = some (.adding, c)

/-- The message is not queued yet. -/
structure NoTrace (m : Message) (w : World) : Prop where
  cache : controls m w.cache = []
  rows : Everywhere (fun ρ => ρ = none) m w
  tasks : ∀ t ∈ w.tasks, ∀ s c, t.focus m = some (s, c) → s = .adding ∧ c = none
  unsent : w.dispatchedSends m = false

/-- Cancelled for good: the tombstone is in the queue file, or every row says cancelled. -/
def Doomed (m : Message) (w : World) : Prop :=
  controls m w.queueFile = [some .cancelled] ∨
    controls m w.queueFile = [] ∧ Everywhere IsCancelled m w

structure Trail (m : Message) (w : World) : Prop where
  short : (controls m w.cache).length ≤ 1
  sent : w.dispatchedSends m = true → Sent w m
  proven : Everywhere (Honest w m) m w
  waits : ∀ t ∈ w.tasks, ∀ s c, t.focus m = some (s, c) → Waits m w t c s
  order : w.tasks.Pairwise (Order m w)
  noFail : ∀ t ∈ w.tasks, t.focus m = some (.settling, some .failed) →
    ∀ u ∈ w.tasks, ∀ c, u.focus m ≠ some (.failing, c)
  alone : ∀ t ∈ w.tasks, t.settles m = true →
    (t.calls m = true → controls m w.cache = [some .cancelled]) ∧
      ∀ u ∈ w.tasks, u.settles m = true → u.calls m = t.calls m
  clean : ∀ c ∈ controls m w.cache, c ≠ some .cancelled → Clean m w
  stays : Clean m w ∨ IsCancelled (w.rows m)
  fresh : Fresh m w → NoTrace m w
  kept : .queued m ∈ w.log → controls m w.queueFile ≠ [] ∨ Everywhere (Fine w m) m w
  doomed : .cancelResult m .success ∈ w.log → Doomed m w

/-! ## Frames -/

section
variable {m : Message} {w w' : World}

theorem Trail.clean_of_dispatchable {c : Option Control} (h : Trail m w)
    (hk : controls m w.cache = [c]) (hc : dispatchable c = true) : Clean m w := by
  refine h.clean c (by simp [hk]) ?_
  rintro rfl
  cases hc

theorem Everywhere.mono {φ ψ : Option Row → Prop} (h : Everywhere φ m w) (hφ : ∀ ρ, φ ρ → ψ ρ) :
    Everywhere ψ m w :=
  ⟨hφ _ h.1, hφ _ h.2.1, fun t ht ρ hρ => hφ ρ (h.2.2 t ht ρ hρ)⟩

/-- Fewer tasks wait, and the row of the message is as it was. -/
structure Fewer (m : Message) (w w' : World) : Prop where
  tasks : w'.tasks.Sublist w.tasks
  rows : w'.rows m = w.rows m
  historyFile : w'.historyFile m = w.historyFile m

theorem Everywhere.fewer {φ : Option Row → Prop} (h : Everywhere φ m w) (hf : Fewer m w w') :
    Everywhere φ m w' := by
  refine ⟨hf.historyFile ▸ h.1, hf.rows ▸ h.2.1, fun t ht => h.2.2 t (hf.tasks.subset ht)⟩

/-- The log only grows, and says nothing new that the invariant depends on. -/
structure Logged (m : Message) (w w' : World) : Prop where
  keeps : ∀ e ∈ w.log, e ∈ w'.log
  queued : .queued m ∈ w'.log → .queued m ∈ w.log
  cancelled : .cancelResult m .success ∈ w'.log → .cancelResult m .success ∈ w.log

theorem Logged.same (h : w'.log = w.log) : Logged m w w' :=
  ⟨fun _ he => h ▸ he, fun hq => h ▸ hq, fun hq => h ▸ hq⟩

theorem Fine.logged {ρ : Option Row} (hl : Logged m w w') (h : Fine w m ρ) : Fine w' m ρ :=
  h.imp (hl.keeps _) id

/-- Nothing the message depends on has changed but the tasks, of which there are fewer. -/
structure Frame (m : Message) (w w' : World) : Prop extends Fewer m w w', Logged m w w' where
  cache : controls m w'.cache = controls m w.cache
  queueFile : controls m w'.queueFile = controls m w.queueFile
  dispatched : w'.dispatchedSends m = w.dispatchedSends m
  known : w'.known m = w.known m

theorem Waits.frame {t : Task} {c : Option Control} {s : Stage} (hf : Frame m w w')
    (h : Waits m w t c s) : Waits m w' t c s := by
  have hfine : ∀ ρ, Fine w m ρ → Fine w' m ρ := fun ρ => Fine.logged hf.toLogged
  cases s with
  | adding => exact h
  | cancelling =>
    simp only [Waits, hf.cache, hf.dispatched] at h ⊢
    exact h
  | retrying =>
    simp only [Waits, hf.cache] at h ⊢
    exact ⟨h.1, Everywhere.fewer h.2.1 hf.toFewer, h.2.2⟩
  | settling =>
    simp only [Waits, hf.cache, hf.rows, hf.historyFile] at h ⊢
    refine h.imp id fun ⟨hc, hcall, hne, hk⟩ => ⟨hc, hcall, hne, fun hcache => ?_⟩
    obtain ⟨hr, ht, hl⟩ := hk hcache
    exact ⟨hfine _ hr, fun ρ hρ => hfine ρ (ht ρ hρ), fun hland => hfine _ (hl hland)⟩
  | unqueueing =>
    simp only [Waits, hf.cache] at h ⊢
    refine h.imp (And.imp_right (·.fewer hf.toFewer)) fun ⟨hc, hcall, hk⟩ => ⟨hc, hcall, ?_⟩
    exact fun hcache => ((hk hcache).mono hfine).fewer hf.toFewer
  | dropping =>
    simp only [Waits, hf.dispatched, hf.rows] at h ⊢
    exact h
  | discarding => exact h
  | loading | clearing | failing =>
    simp only [Waits, hf.cache, hf.dispatched] at h ⊢
    exact h
  | removing | reremoving | reconciling =>
    simp only [Waits, hf.dispatched] at h ⊢
    exact h

theorem Order.frame {a b : Task} (hf : Frame m w w') (h : Order m w a b) : Order m w' a b where
  settled ha hc ρ hρ := Fine.logged hf.toLogged (h.settled ha (hf.cache ▸ hc) ρ hρ)
  cancelled := h.cancelled
  cleared := h.cleared
  failed := h.failed
  first := h.first

theorem Trail.frame (h : Trail m w) (hf : Frame m w w') : Trail m w' := by
  have hmem : ∀ t ∈ w'.tasks, t ∈ w.tasks := hf.tasks.subset
  refine ⟨hf.cache ▸ h.short, ?_, ?_, ?_, ?_, ?_, ?_, ?_, ?_, ?_, ?_, ?_⟩
  · intro hd
    exact hf.keeps _ (h.sent (hf.dispatched ▸ hd))
  · exact (h.proven.mono fun ρ hρ hp => hf.keeps _ (hρ hp)).fewer hf.toFewer
  · exact fun t ht s c hfoc => (h.waits t (hmem t ht) s c hfoc).frame hf
  · exact (h.order.sublist hf.tasks).imp fun hab => hab.frame hf
  · exact fun t ht hs u hu => h.noFail t (hmem t ht) hs u (hmem u hu)
  · intro t ht hs
    obtain ⟨hk, hu⟩ := h.alone t (hmem t ht) hs
    exact ⟨hf.cache ▸ hk, fun u hin => hu u (hmem u hin)⟩
  · intro c hc hd
    exact Everywhere.fewer (h.clean c (hf.cache ▸ hc) hd) hf.toFewer
  · exact h.stays.imp (·.fewer hf.toFewer) (hf.rows ▸ ·)
  · intro hfresh
    have hn : NoTrace m w := by
      refine h.fresh (hfresh.imp (hf.known ▸ ·) ?_)
      rintro ⟨t, ht, hc⟩
      exact ⟨t, hmem t ht, hc⟩
    exact ⟨hf.cache ▸ hn.cache, Everywhere.fewer hn.rows hf.toFewer,
      fun t ht => hn.tasks t (hmem t ht), hf.dispatched ▸ hn.unsent⟩
  · intro hq
    refine (h.kept (hf.queued hq)).imp (hf.queueFile ▸ ·) fun he => ?_
    exact (he.mono fun _ => Fine.logged hf.toLogged).fewer hf.toFewer
  · intro hq
    unfold Doomed
    rw [hf.queueFile]
    exact (h.doomed (hf.cancelled hq)).imp id (And.imp_right (·.fewer hf.toFewer))

end

/-! ## A new task waits -/

section
variable {m : Message} {w : World} {t : Task}

/-- What is about to be saved was just taken from the list. -/
theorem everywhere_push {φ : Option Row → Prop} (hrow : ∀ ρ, t.row m = some ρ → ρ = w.rows m) :
    Everywhere φ m (w.push t) ↔ Everywhere φ m w := by
  constructor
  · rintro ⟨hfile, hrows, htasks⟩
    exact ⟨hfile, hrows, fun u hu => htasks u (List.mem_append_left _ hu)⟩
  · rintro ⟨hfile, hrows, htasks⟩
    refine ⟨hfile, hrows, fun u hu ρ hρ => ?_⟩
    obtain hu | hu := List.mem_append.mp hu
    · exact htasks u hu ρ hρ
    · obtain rfl := List.mem_singleton.mp hu
      rw [hrow ρ hρ]
      exact hrows

theorem waits_push (hrow : ∀ ρ, t.row m = some ρ → ρ = w.rows m) {u : Task} {c : Option Control}
    {s : Stage} : Waits m (w.push t) u c s ↔ Waits m w u c s := by
  have hfine : Fine (w.push t) m = Fine w m := rfl
  cases s with
  | retrying =>
    change _ ∧ Everywhere _ m (w.push t) ∧ _ ↔ _
    rw [everywhere_push hrow]
    rfl
  | unqueueing =>
    simp only [Waits, everywhere_push hrow, hfine]
    rfl
  | _ => rfl

/-- How a task may join the waiting ones. -/
structure Joins (m : Message) (w : World) (t : Task) : Prop where
  row : ∀ ρ, t.row m = some ρ → ρ = w.rows m
  adds : ∀ c, t.focus m ≠ some (.adding, c)
  traced : t.focus m = none ∨ ¬Fresh m w
  waits : ∀ s c, t.focus m = some (s, c) → Waits m w t c s
  settles : t.focus m = some (.settling, some .failed) → ∀ u ∈ w.tasks, ∀ c,
    u.focus m ≠ some (.clearing, c) ∧ u.focus m ≠ some (.failing, c)
  fails : ∀ c, t.focus m = some (.failing, c) → ∀ u ∈ w.tasks,
    u.focus m ≠ some (.settling, some .failed)
  unqueues : t.focus m = some (.unqueueing, some .failed) → ∀ u ∈ w.tasks, ∀ c,
    u.focus m ≠ some (.failing, c)
  alone : t.settles m = true → (t.calls m = true → controls m w.cache = [some .cancelled]) ∧
    ∀ u ∈ w.tasks, u.settles m = true → u.calls m = t.calls m
  landed : t.landed = false

/-- A task that does not wait for the message joins freely. -/
theorem joins_elsewhere (hfocus : t.focus m = none) (hrow : ∀ ρ, t.row m = some ρ → ρ = w.rows m)
    (hland : t.landed = false) : Joins m w t := by
  constructor <;> simp_all [Task.settles]

theorem order_joins (h : Trail m w) (hj : Joins m w t) {u : Task} (hu : u ∈ w.tasks) :
    Order m (w.push t) u t := by
  refine ⟨?_, ?_, ?_, ?_, ?_⟩
  · intro hfoc hc ρ hρ
    rw [hj.row ρ hρ]
    obtain ⟨hne, -⟩ | ⟨-, -, -, hk⟩ := h.waits u hu _ _ hfoc
    · cases hne
    · exact (hk hc).1
  · intro hfoc ρ hρ
    rw [hj.row ρ hρ]
    obtain ⟨-, hr, -⟩ | ⟨hne, -⟩ := h.waits u hu _ _ hfoc
    · exact hr
    · cases hne
  · exact fun c hfoc hs => (hj.settles hs u hu c).1 hfoc
  · exact fun c hfoc hs => hj.unqueues hs u hu c hfoc
  · intro hl
    simp [hj.landed] at hl

theorem Trail.push (h : Trail m w) (hj : Joins m w t) : Trail m (w.push t) := by
  have hmem : ∀ u ∈ (w.push t).tasks, u ∈ w.tasks ∨ u = t := by
    intro u hu
    exact (List.mem_append.mp hu).imp id List.mem_singleton.mp
  refine ⟨h.short, h.sent, (everywhere_push hj.row).mpr h.proven, ?_, ?_, ?_, ?_, ?_, ?_, ?_, ?_,
    ?_⟩
  · intro u hu s c hfoc
    rw [waits_push hj.row]
    obtain hu | rfl := hmem u hu
    · exact h.waits u hu s c hfoc
    · exact hj.waits s c hfoc
  · refine List.pairwise_append.mpr ⟨?_, List.pairwise_singleton _ _, ?_⟩
    · exact h.order.imp fun hab => ⟨hab.settled, hab.cancelled, hab.cleared, hab.failed, hab.first⟩
    · intro u hu v hv
      obtain rfl := List.mem_singleton.mp hv
      exact order_joins h hj hu
  · intro u hu hs v hv c hfoc
    obtain hold | rfl := hmem u hu
    · obtain hv | rfl := hmem v hv
      · exact h.noFail u hold hs v hv c hfoc
      · exact hj.fails c hfoc u hold hs
    · obtain hv | rfl := hmem v hv
      · exact (hj.settles hs v hv c).2 hfoc
      · rw [hs] at hfoc
        cases hfoc
  · intro u hu hs
    obtain hold | rfl := hmem u hu
    · refine ⟨(h.alone u hold hs).1, fun v hv hvs => ?_⟩
      obtain hv | rfl := hmem v hv
      · exact (h.alone u hold hs).2 v hv hvs
      · exact ((hj.alone hvs).2 u hold hs).symm
    · refine ⟨(hj.alone hs).1, fun v hv hvs => ?_⟩
      obtain hv | rfl := hmem v hv
      · exact (hj.alone hs).2 v hv hvs
      · rfl
  · intro c hc hd
    exact (everywhere_push hj.row).mpr (h.clean c hc hd)
  · exact h.stays.imp (everywhere_push hj.row).mpr id
  · intro hfresh
    have hold : Fresh m w := by
      refine hfresh.imp id ?_
      rintro ⟨u, hu, c, hfoc⟩
      obtain hu | rfl := hmem u hu
      · exact ⟨u, hu, c, hfoc⟩
      · exact absurd hfoc (hj.adds c)
    have hn := h.fresh hold
    refine ⟨hn.cache, (everywhere_push hj.row).mpr hn.rows, ?_, hn.unsent⟩
    intro u hu s c hfoc
    obtain hu | rfl := hmem u hu
    · exact hn.tasks u hu s c hfoc
    · obtain hnone | hno := hj.traced
      · rw [hnone] at hfoc
        cases hfoc
      · exact absurd hold hno
  · exact fun hq => (h.kept hq).imp id (everywhere_push hj.row).mpr
  · exact fun hq => (h.doomed hq).imp id (And.imp_right (everywhere_push hj.row).mpr)

end

/-! ## The row changes -/

section
variable {m x : Message} {w : World} {r : Row}

theorem everywhere_setRow {φ : Option Row → Prop} (h : Everywhere φ m w)
    (hx : x = m → φ (some r)) : Everywhere φ m (w.setRow x r) := by
  obtain ⟨hfile, hrows, htasks⟩ := h
  refine ⟨hfile, ?_, htasks⟩
  by_cases hm : x = m
  · subst hm
    simpa [World.setRow] using hx rfl
  · simpa [World.setRow, Function.update_of_ne (Ne.symm hm)] using hrows

/-- How the row of the message may change: it stays cancelled, and it stops saying that the
    message failed only while the message is queued under another control. -/
structure Moves (m : Message) (w : World) (r : Row) : Prop where
  cancelled : IsCancelled (w.rows m) → r.isCancelled = true
  fine : (Fine w m (w.rows m) → Fine w m (some r)) ∨
    controls m w.cache ≠ [some .failed] ∧ controls m w.queueFile ≠ []
  cancels : r.isCancelled = true → IsCancelled (w.rows m) ∨
    (∀ c ∈ controls m w.cache, c = some .cancelled) ∧
      ∀ t ∈ w.tasks, ∀ c, t.focus m ≠ some (.retrying, c)
  proven : r.deliveryProven = true → (w.rows m).any Row.deliveryProven = true ∨ Sent w m
  traced : ¬Fresh m w

theorem Moves.clean (hmv : Moves m w r) (hclean : Clean m w)
    (hbusy : (∃ c ∈ controls m w.cache, c ≠ some .cancelled) ∨
      ∃ t ∈ w.tasks, ∃ c, t.focus m = some (.retrying, c)) : ¬IsCancelled (some r) := by
  intro hr
  obtain hold | ⟨hk, ht⟩ := hmv.cancels (by simpa [IsCancelled] using hr)
  · exact hclean.2.1 hold
  · obtain ⟨c, hc, hd⟩ | ⟨t, hmem, c, hfoc⟩ := hbusy
    · exact hd (hk c hc)
    · exact ht t hmem c hfoc

theorem Trail.setRow (h : Trail m w) (hmv : x = m → Moves m w r) : Trail m (w.setRow x r) := by
  by_cases hm : x = m
  swap
  · refine h.frame ⟨⟨List.Sublist.refl _, ?_, rfl⟩, Logged.same rfl, rfl, rfl, rfl, rfl⟩
    simp [World.setRow, Function.update_of_ne (Ne.symm hm)]
  subst hm
  have hmv := hmv rfl
  have hrow : (w.setRow x r).rows x = some r := by simp [World.setRow]
  have hcan : IsCancelled (w.rows x) → IsCancelled (some r) := by
    intro hc
    simpa [IsCancelled] using hmv.cancelled hc
  have hfine : controls x w.cache = [some .failed] ∨ controls x w.queueFile = [] →
      Fine w x (w.rows x) → Fine w x (some r) := by
    intro hk
    obtain hf | ⟨h1, h2⟩ := hmv.fine
    · exact hf
    · exact absurd hk (by simp [h1, h2])
  refine ⟨h.short, h.sent, ?_, ?_, ?_, h.noFail, h.alone, ?_, ?_, ?_, ?_, ?_⟩
  · refine everywhere_setRow h.proven fun _ hp => ?_
    exact (hmv.proven (by simpa using hp)).elim h.proven.2.1 id
  · intro t ht s c hfoc
    have hwt := h.waits t ht s c hfoc
    cases s with
    | retrying =>
      obtain ⟨hcall, hclean, hk⟩ := hwt
      refine ⟨hcall, everywhere_setRow hclean fun _ => ?_, hk⟩
      exact hmv.clean hclean (.inr ⟨t, ht, c, hfoc⟩)
    | settling =>
      unfold Waits
      rw [hrow]
      obtain ⟨hc, hr, hrest⟩ | ⟨hc, hcall, hne, hk⟩ := hwt
      · exact .inl ⟨hc, hcan hr, hrest⟩
      · refine .inr ⟨hc, hcall, hne, fun hcache => ?_⟩
        obtain ⟨hr, hrest⟩ := hk hcache
        exact ⟨hfine (.inl hcache) hr, hrest⟩
    | unqueueing =>
      obtain ⟨hc, he⟩ | ⟨hc, hcall, hk⟩ := hwt
      · exact .inl ⟨hc, everywhere_setRow he fun _ => hcan he.2.1⟩
      · refine .inr ⟨hc, hcall, fun hcache => ?_⟩
        have he := hk hcache
        exact everywhere_setRow he fun _ => hfine (.inl hcache) he.2.1
    | dropping =>
      unfold Waits
      rw [hrow]
      exact hwt.imp id (Or.imp id hcan)
    | adding | cancelling | discarding | loading | clearing | removing | reremoving | reconciling
    | failing => exact hwt
  · exact h.order.imp fun hab => ⟨hab.settled, hab.cancelled, hab.cleared, hab.failed, hab.first⟩
  · intro c hc hd
    have hclean := h.clean c hc hd
    exact everywhere_setRow hclean fun _ => hmv.clean hclean (.inl ⟨c, hc, hd⟩)
  · rw [hrow]
    obtain hclean | hc := h.stays
    · by_cases hr : IsCancelled (some r)
      · exact .inr hr
      · exact .inl (everywhere_setRow hclean fun _ => hr)
    · exact .inr (hcan hc)
  · exact fun hfresh => absurd hfresh hmv.traced
  · intro hq
    by_cases hempty : controls x w.queueFile = []
    · obtain hne | he := h.kept hq
      · exact absurd hempty hne
      · exact .inr (everywhere_setRow he fun _ => hfine (.inr hempty) he.2.1)
    · exact .inl hempty
  · intro hq
    refine (h.doomed hq).imp id (And.imp_right fun he => ?_)
    exact everywhere_setRow he fun _ => hcan he.2.1

end

/-! ## The message is sent, or its items change -/

section
variable {m x : Message} {w : World}

theorem Trail.markDispatched (h : Trail m w)
    (hx : x = m → Sent w m ∧ (∀ t ∈ w.tasks, t.holds m = false) ∧ ¬Fresh m w) :
    Trail m (w.markDispatched x) := by
  by_cases hm : x = m
  swap
  · refine h.frame ⟨⟨List.Sublist.refl _, rfl, rfl⟩, Logged.same rfl, rfl, rfl, ?_, rfl⟩
    simp [World.markDispatched, Function.update_of_ne (Ne.symm hm)]
  subst hm
  obtain ⟨hsent, hfree, htraced⟩ := hx rfl
  have hdone : (w.markDispatched x).dispatchedSends x = true := by simp [World.markDispatched]
  have hbusy : ∀ t ∈ w.tasks, t.claims x = true ∨ t.calls x = true → False := by
    intro t ht hb
    have := hfree t ht
    simp only [Task.holds, Bool.or_eq_false_iff] at this
    rcases hb with hb | hb <;> simp [hb] at this
  refine ⟨h.short, fun _ => hsent, h.proven, ?_, ?_, h.noFail, h.alone, h.clean, h.stays, ?_,
    h.kept, h.doomed⟩
  · intro t ht s c hfoc
    have hwt := h.waits t ht s c hfoc
    cases s with
    | adding => exact (hbusy t ht (.inr hwt)).elim
    | cancelling | retrying => exact (hbusy t ht (.inr hwt.1)).elim
    | loading | clearing | failing => exact (hbusy t ht (.inl hwt.1)).elim
    | removing | reremoving | reconciling => exact ⟨hwt.1, hwt.2.1, hdone⟩
    | dropping => exact ⟨hwt.1, .inl hdone⟩
    | settling | unqueueing | discarding => exact hwt
  · exact h.order.imp fun hab => ⟨hab.settled, hab.cancelled, hab.cleared, hab.failed, hab.first⟩
  · exact fun hfresh => absurd hfresh htraced

/-- The cache follows the file. -/
theorem Trail.install (h : Trail m w) (hshort : (controls m w.queueFile).length ≤ 1)
    (hclean : ∀ c ∈ controls m w.queueFile, c ≠ some .cancelled → Clean m w)
    (hwaits : ∀ t ∈ w.tasks, ∀ s c, t.focus m = some (s, c) →
      Waits m { w with cache := w.queueFile, installing := false } t c s)
    (hset : controls m w.queueFile = [some .failed] → controls m w.cache = [some .failed] ∨
      ∀ t ∈ w.tasks, t.focus m ≠ some (.settling, some .failed))
    (halone : ∀ t ∈ w.tasks, t.settles m = true → t.calls m = true →
      controls m w.queueFile = [some .cancelled])
    (hfresh : controls m w.queueFile = [] ∨
      ¬Fresh m w) :
    Trail m { w with cache := w.queueFile, installing := false } := by
  refine ⟨hshort, h.sent, h.proven, hwaits, ?_, h.noFail, ?_, hclean, h.stays, ?_, h.kept,
    h.doomed⟩
  · refine h.order.imp_of_mem fun {a b} ha _ hab => ?_
    refine ⟨fun hfoc hc => ?_, hab.cancelled, hab.cleared, hab.failed, hab.first⟩
    obtain hold | hno := hset hc
    · exact hab.settled hfoc hold
    · exact absurd hfoc (hno a ha)
  · exact fun t ht hs => ⟨halone t ht hs, (h.alone t ht hs).2⟩
  · intro hf
    obtain hempty | hno := hfresh
    · have hn := h.fresh hf
      exact ⟨hempty, hn.rows, hn.tasks, hn.unsent⟩
    · exact absurd hf hno

end

end Tim2Tox.SendControl
