import RemoteRobot.Lib.Ring
import RemoteRobot.Lib.Transition

/-!
# The feed of operational snapshots

`refresh` publishes a snapshot when the projected state has another fingerprint than the last one,
and keeps the last `event_capacity` of them; `subscribe` captures what lies above its cursor and
delivers it one by one.  Between two awaits nothing else runs, so every such block is one step of
`System.step`.  What the subscriber is told does not depend on where it is suspended
(`System.feed_sound`).
-/

namespace RemoteRobot.Operations

open Transition

/-- The mapping `refresh` builds: the projected state and three fields of its own. -/
structure Snapshot (σ : Type) where
  state : σ
  generatedAtNs : ℤ
  uptimeMs : ℤ
  operationsEventSeq : ℕ
  deriving DecidableEq

structure OperationsEvent (σ : Type) where
  eventSeq : ℕ
  recordedAtNs : ℤ
  eventType : String
  snapshot : Snapshot σ
  deriving DecidableEq

/-- `OperationsProjection`, with the state it projects and its fingerprints left abstract. -/
structure OperationsProjection (σ φ : Type) where
  eventCapacity : ℕ
  startedMonotonicNs : ℤ
  /-- `deque(maxlen=event_capacity)` -/
  events : List (OperationsEvent σ)
  eventSeq : ℕ
  snapshot : Option (Snapshot σ)
  stateFingerprint : Option φ
  closed : Bool

/-- The readings of the two clocks in one `refresh`, in the order they are taken. -/
structure Clocks where
  generatedAtNs : ℤ
  monotonicNs : ℤ
  recordedAtNs : ℤ

namespace OperationsProjection

variable {σ φ : Type}

/-- `__init__`, `none` where it raises `ValueError`. -/
def init (eventCapacity recentRuns recentEvents startedMonotonicNs : ℤ) :
    Option (OperationsProjection σ φ) :=
  if eventCapacity ≤ 0 ∨ recentRuns ≤ 0 ∨ recentEvents ≤ 0 then none
  else some {
    eventCapacity := eventCapacity.toNat
    startedMonotonicNs := startedMonotonicNs
    events := []
    eventSeq := 0
    snapshot := none
    stateFingerprint := none
    closed := false }

/-- The `snapshot` of `refresh`. -/
def snapshotOf (p : OperationsProjection σ φ) (eventSeq : ℕ) (state : σ) (clocks : Clocks) :
    Snapshot σ where
  state := state
  generatedAtNs := clocks.generatedAtNs
  uptimeMs := (clocks.monotonicNs - p.startedMonotonicNs) / 1000000
  operationsEventSeq := eventSeq

/-- The `event` of `refresh`, numbered by the sequence it has just advanced. -/
def nextEvent (p : OperationsProjection σ φ) (state : σ) (clocks : Clocks) : OperationsEvent σ where
  eventSeq := p.eventSeq + 1
  recordedAtNs := clocks.recordedAtNs
  eventType := "operations.snapshot"
  snapshot := p.snapshotOf (p.eventSeq + 1) state clocks

/-- `refresh` between the poll and the notification, and the `changed` it returns. -/
def publish [DecidableEq φ] (p : OperationsProjection σ φ) (state : σ) (fingerprint : φ)
    (clocks : Clocks) : OperationsProjection σ φ × Bool :=
  if some fingerprint = p.stateFingerprint then
    ({ p with snapshot := some (p.snapshotOf p.eventSeq state clocks) }, false)
  else
    ({ p with
        eventSeq := p.eventSeq + 1
        snapshot := some (p.snapshotOf (p.eventSeq + 1) state clocks)
        stateFingerprint := some fingerprint
        events := Ring.push p.eventCapacity p.events (p.nextEvent state clocks) }, true)

/-- `[event for event in self._events if event.event_seq > cursor]` -/
def pendingAfter (p : OperationsProjection σ φ) (cursor : ℕ) : List (OperationsEvent σ) :=
  p.events.filter fun event => cursor < event.eventSeq

end OperationsProjection

/-- Where a `refresh` that holds the refresh lock is suspended. -/
inductive RefreshPc
  | polling
  /-- it waits for the condition, the event is in the buffer -/
  | notifying
  deriving DecidableEq

/-- Where `subscribe` is suspended. -/
inductive SubscriberPc (σ : Type)
  /-- before it reads the buffer: not started, asked for more, or woken -/
  | reading
  | waiting
  /-- at a `yield`, with what is left of the captured batch -/
  | yielding (pending : List (OperationsEvent σ))
  /-- it returned, or was cancelled or closed by its consumer -/
  | returned

def SubscriberPc.pending {σ : Type} : SubscriberPc σ → List (OperationsEvent σ)
  | .yielding pending => pending
  | .reading | .waiting | .returned => []

/-- The projection, the calls of `refresh` under way and one subscriber.  The last three
fields only record what happened: the events published, those the subscriber yielded, and how many
were published at each of its reads. -/
structure System (σ φ : Type) where
  projection : OperationsProjection σ φ
  /-- the calls that wait for the refresh lock -/
  queued : ℕ
  refreshing : Option RefreshPc
  cursor : ℕ
  subscriber : SubscriberPc σ
  published : List (OperationsEvent σ)
  received : List (OperationsEvent σ)
  reads : List ℕ

inductive Label (σ : Type)
  /-- a call of `refresh` -/
  | refresh
  /-- a call gets the refresh lock -/
  | acquire
  /-- the workers are polled and the state is built -/
  | polled (state : σ) (clocks : Clocks)
  /-- the poll or the projection raises, or the call is cancelled there -/
  | pollRaises
  | notify
  /-- the call is cancelled where it waits for the condition -/
  | notifyCancelled
  /-- a call is cancelled where it waits for the refresh lock -/
  | refreshCancelled
  /-- the subscriber reads the buffer -/
  | read
  /-- the consumer takes the next event, or the batch is exhausted -/
  | next
  | subscriberCancelled
  /-- `close` up to the condition -/
  | close
  /-- `close` notifies -/
  | closeNotify

namespace System

variable {σ φ : Type}

/-- A subscriber started at cursor `c` beside a projection. -/
def start (p : OperationsProjection σ φ) (c : ℕ) : System σ φ where
  projection := p
  queued := 0
  refreshing := none
  cursor := c
  subscriber := .reading
  published := []
  received := []
  reads := []

/-- `notify_all`: a waiting subscriber goes on to read the buffer again. -/
def notifyAll (s : System σ φ) : System σ φ :=
  match s.subscriber with
  | .waiting => { s with subscriber := .reading }
  | _ => s

/-- What `refresh` does when the poll is over. -/
def publish [DecidableEq φ] (s : System σ φ) (state : σ) (fingerprint : φ) (clocks : Clocks) :
    System σ φ :=
  let (p, changed) := s.projection.publish state fingerprint clocks
  if changed then
    { s with
      projection := p
      refreshing := some .notifying
      published := s.published ++ [s.projection.nextEvent state clocks] }
  else { s with projection := p, refreshing := none }

/-- The subscriber under the condition: it captures what is pending, waits, or returns. -/
def read (s : System σ φ) : System σ φ :=
  let pending := s.projection.pendingAfter s.cursor
  if s.projection.closed then { s with subscriber := .returned }
  else
    { s with
      subscriber := if pending.isEmpty then .waiting else .yielding pending
      reads := s.reads ++ [s.published.length] }

/-- One block between two awaits.  `fingerprint` is `none` where `_fingerprint` raises. -/
def step [DecidableEq φ] (fingerprint : σ → Option φ) (s : System σ φ) : Label σ → Option (System σ φ)
  | .refresh => some (if s.projection.closed then s else { s with queued := s.queued + 1 })
  | .acquire =>
    if 0 < s.queued ∧ s.refreshing = none then
      some { s with queued := s.queued - 1, refreshing := some .polling }
    else none
  | .polled state clocks =>
    if s.refreshing = some .polling then
      match fingerprint state with
      | none => some { s with refreshing := none }
      | some f => some (s.publish state f clocks)
    else none
  | .pollRaises => if s.refreshing = some .polling then some { s with refreshing := none } else none
  | .notify =>
    if s.refreshing = some .notifying then some { s.notifyAll with refreshing := none } else none
  | .notifyCancelled =>
    if s.refreshing = some .notifying then some { s with refreshing := none } else none
  | .refreshCancelled => if 0 < s.queued then some { s with queued := s.queued - 1 } else none
  | .read => match s.subscriber with
    | .reading => some s.read
    | _ => none
  | .next => match s.subscriber with
    | .yielding (event :: rest) => some { s with
        cursor := event.eventSeq
        subscriber := .yielding rest
        received := s.received ++ [event] }
    | .yielding [] => some { s with subscriber := .reading }
    | _ => none
  | .subscriberCancelled => some { s with subscriber := .returned }
  | .close => some { s with projection.closed := true }
  | .closeNotify => if s.projection.closed then some s.notifyAll else none

/-! ## The invariant -/

/-- The number `k` is passed over: a later one was yielded, or the buffer was read after `k` was
published, and `k` was neither yielded nor captured. -/
def Missed (s : System σ φ) (k : ℕ) : Prop :=
  (∀ e ∈ s.received ++ s.subscriber.pending, e.eventSeq ≠ k) ∧
    (k ≤ s.cursor ∨ s.subscriber ≠ .returned ∧ ∃ n ∈ s.reads, k ≤ n)

/-- When the buffer was first read after `k` was published, `cap` later events were published. -/
def Evicted (cap : ℕ) (reads : List ℕ) (k : ℕ) : Prop :=
  ∃ earlier n later, reads = earlier ++ n :: later ∧ (∀ m ∈ earlier, m < k) ∧ k + cap ≤ n

theorem Evicted.append {cap : ℕ} {reads : List ℕ} {k : ℕ} (h : Evicted cap reads k)
    (more : List ℕ) : Evicted cap (reads ++ more) k := by
  obtain ⟨earlier, n, later, rfl, hearlier, hn⟩ := h
  exact ⟨earlier, n, later ++ more, by simp, hearlier, hn⟩

/-- What holds of the buffer of capacity `cap` and of a subscriber started at `c`. -/
structure Inv (cap c : ℕ) (s : System σ φ) : Prop where
  capacity : s.projection.eventCapacity = cap
  numbered : Ring.Numbered OperationsEvent.eventSeq s.published
  eventSeq : s.projection.eventSeq = s.published.length
  events : s.projection.events = s.published.rtake cap
  stamped : ∀ e ∈ s.published, e.snapshot.operationsEventSeq = e.eventSeq
  increasing : (s.received ++ s.subscriber.pending).Pairwise fun e e' => e.eventSeq < e'.eventSeq
  received : ∀ e ∈ s.received, e ∈ s.published ∧ c < e.eventSeq ∧ e.eventSeq ≤ s.cursor
  pending : ∀ e ∈ s.subscriber.pending,
    e ∈ s.published ∧ s.cursor < e.eventSeq ∧ ∃ n ∈ s.reads, e.eventSeq ≤ n
  cursor : c ≤ s.cursor
  missed : ∀ k, c < k → s.Missed k → Evicted cap s.reads k

variable {s s' : System σ φ} {cap c : ℕ}

theorem inv_start {p : OperationsProjection σ φ} {recentRuns recentEvents started : ℤ}
    {eventCapacity : ℤ}
    (hp : OperationsProjection.init eventCapacity recentRuns recentEvents started = some p) (c : ℕ) :
    Inv eventCapacity.toNat c (start p c) := by
  unfold OperationsProjection.init at hp
  split_ifs at hp
  cases hp
  refine ⟨rfl, rfl, rfl, by simp [start], by simp [start], .nil, by simp [start], by simp [start, SubscriberPc.pending],
    le_rfl, fun k hk hmissed => ?_⟩
  obtain ⟨-, hle | ⟨-, n, hn, -⟩⟩ := hmissed
  · exact absurd hk (Nat.not_lt.2 hle)
  · cases hn

/-- Neither the locks nor the fingerprint nor the `closed` flag matter. -/
theorem Inv.congr (h : Inv cap c s) (hcap : s'.projection.eventCapacity = s.projection.eventCapacity)
    (hseq : s'.projection.eventSeq = s.projection.eventSeq)
    (hevents : s'.projection.events = s.projection.events) (hcursor : s'.cursor = s.cursor)
    (hsub : s'.subscriber = s.subscriber) (hpublished : s'.published = s.published)
    (hreceived : s'.received = s.received) (hreads : s'.reads = s.reads) : Inv cap c s' := by
  refine ⟨hcap.trans h.capacity, ?_, ?_, ?_, ?_, ?_, ?_, ?_, ?_, ?_⟩
  · rw [hpublished]
    exact h.numbered
  · rw [hseq, hpublished]
    exact h.eventSeq
  · rw [hevents, hpublished]
    exact h.events
  · rw [hpublished]
    exact h.stamped
  · rw [hreceived, hsub]
    exact h.increasing
  · rw [hreceived, hpublished, hcursor]
    exact h.received
  · rw [hsub, hpublished, hcursor, hreads]
    exact h.pending
  · rw [hcursor]
    exact h.cursor
  · unfold Missed
    rw [hreceived, hsub, hcursor, hreads]
    exact h.missed

/-- A subscriber that holds no batch goes on to a place without one, or the subscriber returns and
drops its batch. -/
theorem Inv.settle (h : Inv cap c s) {pc : SubscriberPc σ} (hpc : pc.pending = [])
    (hor : pc = .returned ∨ s.subscriber.pending = [] ∧ s.subscriber ≠ .returned) :
    Inv cap c { s with subscriber := pc } := by
  refine ⟨h.capacity, h.numbered, h.eventSeq, h.events, h.stamped, ?_, h.received, ?_, h.cursor, ?_⟩
  · show (s.received ++ pc.pending).Pairwise _
    rw [hpc, List.append_nil]
    exact (List.pairwise_append.1 h.increasing).1
  · show ∀ e ∈ pc.pending, _
    rw [hpc]
    exact fun e he => nomatch he
  · rintro k hk ⟨hnone, hpast⟩
    refine h.missed k hk ?_
    simp only [hpc, List.append_nil] at hnone hpast
    obtain rfl | ⟨hpending, hlive⟩ := hor
    · -- what is dropped lies above the cursor
      obtain hle | ⟨hne, -⟩ := hpast
      · refine ⟨fun e he => ?_, .inl hle⟩
        obtain he | he := List.mem_append.1 he
        · exact hnone e he
        · exact Nat.ne_of_gt (Nat.lt_of_le_of_lt hle (h.pending e he).2.1)
      · exact absurd rfl hne
    · refine ⟨?_, hpast.imp_right fun hreads => ⟨hlive, hreads.2⟩⟩
      rw [hpending, List.append_nil]
      exact hnone

theorem Inv.notifyAll (h : Inv cap c s) : Inv cap c s.notifyAll := by
  unfold System.notifyAll
  split
  · rename_i hwait
    refine h.settle rfl (.inr ?_)
    rw [hwait]
    exact ⟨rfl, nofun⟩
  · exact h

/-- The next of the batch is yielded. -/
theorem Inv.deliver (h : Inv cap c s) {event : OperationsEvent σ} {rest : List (OperationsEvent σ)}
    (hsub : s.subscriber = .yielding (event :: rest)) :
    Inv cap c { s with
      cursor := event.eventSeq
      subscriber := .yielding rest
      received := s.received ++ [event] } := by
  have hpending : s.subscriber.pending = event :: rest := by rw [hsub]; rfl
  have happend : s.received ++ [event] ++ rest = s.received ++ s.subscriber.pending := by
    rw [hpending, List.append_assoc]
    rfl
  have hincreasing := h.increasing
  rw [hpending, List.pairwise_append, List.pairwise_cons] at hincreasing
  obtain ⟨-, ⟨hrest, -⟩, -⟩ := hincreasing
  obtain ⟨hmem, hlt, n, hn, hle⟩ := h.pending event (by rw [hpending]; exact List.mem_cons_self)
  refine ⟨h.capacity, h.numbered, h.eventSeq, h.events, h.stamped, ?_, ?_, ?_, ?_, ?_⟩
  · show (s.received ++ [event] ++ rest).Pairwise _
    rw [happend]
    exact h.increasing
  · intro e he
    obtain he | he := List.mem_append.1 he
    · obtain ⟨hpub, habove, hcursor⟩ := h.received e he
      exact ⟨hpub, habove, hcursor.trans hlt.le⟩
    · obtain rfl := List.mem_singleton.1 he
      exact ⟨hmem, Nat.lt_of_le_of_lt h.cursor hlt, le_rfl⟩
  · intro e he
    obtain ⟨hpub, -, hread⟩ := h.pending e (by rw [hpending]; exact List.mem_cons_of_mem _ he)
    exact ⟨hpub, hrest e he, hread⟩
  · exact h.cursor.trans hlt.le
  · rintro k hk ⟨hnone, hpast⟩
    refine h.missed k hk ⟨?_, .inr ⟨?_, ?_⟩⟩
    · rw [← happend]
      exact hnone
    · rw [hsub]
      nofun
    · obtain hcursor | ⟨-, hreads⟩ := hpast
      · exact ⟨n, hn, le_trans hcursor hle⟩
      · exact hreads

/-- The buffer is read while the subscriber holds no batch. -/
theorem Inv.capture (h : Inv cap c s) (hsub : s.subscriber = .reading) {pc : SubscriberPc σ}
    (hpc : pc.pending = s.projection.pendingAfter s.cursor) :
    Inv cap c { s with subscriber := pc, reads := s.reads ++ [s.published.length] } := by
  have hmem : ∀ e, e ∈ s.projection.pendingAfter s.cursor ↔
      e ∈ s.published.rtake cap ∧ s.cursor < e.eventSeq := fun e => by
    rw [OperationsProjection.pendingAfter, List.mem_filter, h.events, decide_eq_true_eq]
  have hnil : s.subscriber.pending = [] := by rw [hsub]; rfl
  refine ⟨h.capacity, h.numbered, h.eventSeq, h.events, h.stamped, ?_, h.received, ?_, h.cursor, ?_⟩
  · show (s.received ++ pc.pending).Pairwise _
    rw [hpc, List.pairwise_append]
    refine ⟨(List.pairwise_append.1 h.increasing).1, ?_, fun e he e' he' => ?_⟩
    · refine List.Pairwise.filter _ ?_
      rw [h.events]
      exact h.numbered.pairwise.sublist (List.drop_sublist _ _)
    · exact Nat.lt_of_le_of_lt (h.received e he).2.2 ((hmem e').1 he').2
  · show ∀ e ∈ pc.pending, _
    rw [hpc]
    intro e he
    obtain ⟨hring, hlt⟩ := (hmem e).1 he
    have hpub := Ring.mem_of_mem_rtake hring
    exact ⟨hpub, hlt, _, List.mem_append_right _ List.mem_cons_self, h.numbered.seq_le hpub⟩
  · rintro k hk ⟨hnone, hpast⟩
    by_cases hold : k ≤ s.cursor ∨ ∃ n ∈ s.reads, k ≤ n
    · refine (h.missed k hk ⟨fun e he => ?_, ?_⟩).append _
      · rw [hnil, List.append_nil] at he
        exact hnone e (List.mem_append_left _ he)
      · exact hold.imp_right fun hreads => ⟨by rw [hsub]; nofun, hreads⟩
    · -- this is the first read since `k` was published, so `k` is not in the buffer
      push Not at hold
      have hkn : k ≤ s.published.length := by
        obtain hle | ⟨-, n, hn, hkn⟩ := hpast
        · exact absurd hle (Nat.not_le.2 hold.1)
        · obtain hn | hn := List.mem_append.1 hn
          · exact absurd hkn (Nat.not_le.2 (hold.2 n hn))
          · rwa [List.mem_singleton.1 hn] at hkn
      refine ⟨s.reads, _, [], rfl, hold.2, ?_⟩
      obtain ⟨e, he, rfl⟩ := h.numbered.exists_mem (Nat.zero_lt_of_lt hk) hkn
      by_contra hlt
      refine hnone e (List.mem_append_right _ ?_) rfl
      show e ∈ pc.pending
      rw [hpc]
      exact (hmem e).2 ⟨h.numbered.mem_rtake he (Nat.not_le.1 hlt), hold.1⟩

theorem Inv.read (h : Inv cap c s) (hsub : s.subscriber = .reading) : Inv cap c s.read := by
  unfold System.read
  split_ifs with hclosed
  · exact h.settle rfl (.inl rfl)
  · refine h.capture hsub ?_
    split_ifs with hempty
    · rw [List.isEmpty_iff.1 hempty]
      rfl
    · rfl

/-- A new event is numbered next and pushed on the buffer; the subscriber is not concerned. -/
theorem Inv.publish [DecidableEq φ] (h : Inv cap c s) (state : σ) (f : φ) (clocks : Clocks) :
    Inv cap c (s.publish state f clocks) := by
  unfold System.publish OperationsProjection.publish
  by_cases hf : some f = s.projection.stateFingerprint
  · simp only [if_pos hf]
    exact h.congr rfl rfl rfl rfl rfl rfl rfl rfl
  · simp only [if_neg hf]
    have hnext : (s.projection.nextEvent state clocks).eventSeq = s.published.length + 1 := by
      rw [OperationsProjection.nextEvent, h.eventSeq]
    refine ⟨h.capacity, h.numbered.concat hnext, ?_, ?_, ?_, h.increasing, ?_, ?_, h.cursor, h.missed⟩
    · show s.projection.eventSeq + 1 = (s.published ++ [_]).length
      rw [h.eventSeq, List.length_append, List.length_singleton]
    · show Ring.push s.projection.eventCapacity s.projection.events _ = (s.published ++ [_]).rtake cap
      rw [h.capacity, h.events, Ring.push_rtake]
    · intro e he
      obtain he | he := List.mem_append.1 he
      · exact h.stamped e he
      · rw [List.mem_singleton.1 he]
        rfl
    · exact fun e he => ⟨List.mem_append_left _ (h.received e he).1, (h.received e he).2⟩
    · exact fun e he => ⟨List.mem_append_left _ (h.pending e he).1, (h.pending e he).2⟩

variable [DecidableEq φ] {fingerprint : σ → Option φ}

theorem Inv.step {l : Label σ} (h : Inv cap c s) (hs : step fingerprint s l = some s') :
    Inv cap c s' := by
  cases l with
  | refresh =>
    cases hs
    split_ifs
    · exact h
    · exact h.congr rfl rfl rfl rfl rfl rfl rfl rfl
  | acquire | pollRaises | notifyCancelled | refreshCancelled =>
    have hs := Option.ite_none_right_eq_some.1 hs
    obtain ⟨-, ⟨⟩⟩ := hs
    exact h.congr rfl rfl rfl rfl rfl rfl rfl rfl
  | polled state clocks =>
    obtain ⟨-, hs⟩ := Option.ite_none_right_eq_some.1 hs
    cases hf : fingerprint state with
    | none =>
      rw [hf] at hs
      cases hs
      exact h.congr rfl rfl rfl rfl rfl rfl rfl rfl
    | some f =>
      rw [hf] at hs
      cases hs
      exact h.publish state f clocks
  | notify =>
    obtain ⟨-, ⟨⟩⟩ := Option.ite_none_right_eq_some.1 hs
    exact h.notifyAll.congr rfl rfl rfl rfl rfl rfl rfl rfl
  | read =>
    cases hsub : s.subscriber with
    | reading =>
      simp only [System.step, hsub] at hs
      cases hs
      exact h.read hsub
    | waiting | yielding pending | returned =>
      simp only [System.step, hsub] at hs
      cases hs
  | next =>
    cases hsub : s.subscriber with
    | yielding pending =>
      cases pending with
      | nil =>
        simp only [System.step, hsub] at hs
        cases hs
        refine h.settle rfl (.inr ?_)
        rw [hsub]
        exact ⟨rfl, nofun⟩
      | cons event rest =>
        simp only [System.step, hsub] at hs
        cases hs
        exact h.deliver hsub
    | reading | waiting | returned =>
      simp only [System.step, hsub] at hs
      cases hs
  | subscriberCancelled =>
    cases hs
    exact h.settle rfl (.inl rfl)
  | close =>
    cases hs
    exact h.congr rfl rfl rfl rfl rfl rfl rfl rfl
  | closeNotify =>
    obtain ⟨-, ⟨⟩⟩ := Option.ite_none_right_eq_some.1 hs
    exact h.notifyAll

/-- In every run the numbers published are 1, 2, 3, …  What a subscriber started at `c` yields has
increasing numbers above `c` and is the event published under that number, which its snapshot bears
too; and a number above `c` is passed over only if `event_capacity` later ones were published when the
buffer was next read. -/
theorem feed_sound {p : OperationsProjection σ φ}
    {eventCapacity recentRuns recentEvents started : ℤ} (c : ℕ)
    (hp : OperationsProjection.init eventCapacity recentRuns recentEvents started = some p)
    (h : Reachable (step fingerprint) (start p c) s) :
    s.published.map OperationsEvent.eventSeq = List.range' 1 s.published.length ∧
      (s.received.map OperationsEvent.eventSeq).Pairwise (· < ·) ∧
      (∀ e ∈ s.received, c < e.eventSeq ∧ s.published[e.eventSeq - 1]? = some e ∧
        e.snapshot.operationsEventSeq = e.eventSeq) ∧
      ∀ k, c < k → s.Missed k → Evicted eventCapacity.toNat s.reads k := by
  have hinv : Inv eventCapacity.toNat c s :=
    h.invariant (fun _ _ _ hinv hs => hinv.step hs) (inv_start hp c)
  refine ⟨hinv.numbered, ?_, fun e he => ?_, hinv.missed⟩
  · rw [List.pairwise_map]
    exact (List.pairwise_append.1 hinv.increasing).1
  · obtain ⟨hpub, habove, -⟩ := hinv.received e he
    exact ⟨habove, hinv.numbered.getElem?_seq hpub, hinv.stamped e hpub⟩

/-- A `refresh` that projects `state`, from the call to the notification. -/
def Label.refreshed {σ : Type} (state : σ) : List (Label σ) :=
  [.refresh, .acquire, .polled state ⟨0, 0, 0⟩, .notify]

/-- Three projections; the subscriber takes the first event, and comes back behind the third. -/
def lappedRun : List (Label ℕ) :=
  [Label.read] ++ Label.refreshed 7 ++ [Label.read, .next] ++ Label.refreshed 8 ++
    Label.refreshed 9 ++ [Label.next, .read, .next]

/-- With one place in the buffer a subscriber that is suspended at its first event finds the third one
there, and has lost the second. -/
theorem feed_sound_lapped :
    ∃ (p : OperationsProjection ℕ ℕ) (s : System ℕ ℕ),
      OperationsProjection.init 1 24 80 0 = some p ∧ Reachable (step some) (start p 0) s ∧
        s.received.map OperationsEvent.eventSeq = [1, 3] ∧ Evicted 1 s.reads 2 := by
  obtain ⟨p, hp⟩ : ∃ p : OperationsProjection ℕ ℕ, OperationsProjection.init 1 24 80 0 = some p :=
    ⟨_, rfl⟩
  have hrun : (OperationsProjection.init 1 24 80 0).bind (fun p : OperationsProjection ℕ ℕ =>
      (run (step some) (start p 0) lappedRun).map fun s =>
        (s.received.map OperationsEvent.eventSeq, s.subscriber.pending, s.cursor)) =
      some ([1, 3], [], 3) := by
    decide +kernel
  rw [hp, Option.bind_some, Option.map_eq_some_iff] at hrun
  obtain ⟨s, hs, hview⟩ := hrun
  simp only [Prod.mk.injEq] at hview
  obtain ⟨hreceived, hpending, hcursor⟩ := hview
  have hmissed : s.Missed 2 := by
    refine ⟨fun e he h2 => ?_, .inl ?_⟩
    · rw [hpending, List.append_nil] at he
      have hmem := List.mem_map_of_mem (f := OperationsEvent.eventSeq) he
      rw [hreceived, h2] at hmem
      revert hmem
      decide
    · rw [hcursor]
      decide
  exact ⟨p, s, hp, ⟨_, hs⟩, hreceived, (feed_sound 0 hp ⟨_, hs⟩).2.2.2 2 (by decide) hmissed⟩

/-! ## Waking the subscriber -/

/-- A waiting subscriber has nothing pending, or a notification is on its way. -/
def Woken (s : System σ φ) : Prop :=
  s.subscriber = .waiting →
    s.projection.pendingAfter s.cursor = [] ∨ s.refreshing = some .notifying

/-- No call of `refresh` is cancelled between its event and the notification. -/
def Notifies (_ : System σ φ) (l : Label σ) : Prop := l ≠ .notifyCancelled

omit [DecidableEq φ] in
theorem Woken.notifyAll (s : System σ φ) (refreshing : Option RefreshPc) :
    Woken { s.notifyAll with refreshing := refreshing } := by
  unfold System.notifyAll
  split
  · exact nofun
  · rename_i hwait
    exact fun h => absurd h hwait

theorem Woken.publish (h : s.refreshing = some .polling) (hw : s.Woken) (state : σ) (f : φ)
    (clocks : Clocks) : (s.publish state f clocks).Woken := by
  unfold System.publish OperationsProjection.publish
  by_cases hf : some f = s.projection.stateFingerprint
  · simp only [if_pos hf]
    intro hwait
    obtain hnil | hnotifying := hw hwait
    · exact .inl hnil
    · rw [h] at hnotifying
      cases hnotifying
  · simp only [if_neg hf]
    exact fun _ => .inr rfl

omit [DecidableEq φ] in
theorem Woken.read (s : System σ φ) : s.read.Woken := by
  unfold System.read
  split_ifs with hclosed
  · exact nofun
  · intro hwait
    refine .inl (List.isEmpty_iff.1 ?_)
    by_contra hne
    simp only [if_neg hne] at hwait
    cases hwait

theorem Woken.step {l : Label σ} (hw : s.Woken) (hl : Notifies s l)
    (hs : step fingerprint s l = some s') : s'.Woken := by
  have hidle : s.refreshing ≠ some .notifying → ∀ s'' : System σ φ, s''.projection = s.projection →
      s''.cursor = s.cursor → s''.subscriber = s.subscriber → s''.Woken := by
    intro hne s'' hp hc hsub hwait
    rw [hp, hc]
    exact .inl ((hw (hsub ▸ hwait)).resolve_right hne)
  cases l with
  | refresh =>
    cases hs
    split_ifs
    · exact hw
    · exact hw
  | acquire =>
    obtain ⟨⟨-, hnone⟩, ⟨⟩⟩ := Option.ite_none_right_eq_some.1 hs
    exact hidle (by rw [hnone]; nofun) _ rfl rfl rfl
  | polled state clocks =>
    obtain ⟨hpolling, hs⟩ := Option.ite_none_right_eq_some.1 hs
    cases hf : fingerprint state with
    | none =>
      rw [hf] at hs
      cases hs
      exact hidle (by rw [hpolling]; nofun) _ rfl rfl rfl
    | some f =>
      rw [hf] at hs
      cases hs
      exact Woken.publish hpolling hw state f clocks
  | pollRaises =>
    obtain ⟨hpolling, ⟨⟩⟩ := Option.ite_none_right_eq_some.1 hs
    exact hidle (by rw [hpolling]; nofun) _ rfl rfl rfl
  | notify =>
    obtain ⟨-, ⟨⟩⟩ := Option.ite_none_right_eq_some.1 hs
    exact .notifyAll s none
  | notifyCancelled => exact absurd rfl hl
  | refreshCancelled =>
    obtain ⟨-, ⟨⟩⟩ := Option.ite_none_right_eq_some.1 hs
    exact hw
  | read =>
    simp only [System.step] at hs
    split at hs
    · cases hs
      exact .read s
    · cases hs
  | next =>
    simp only [System.step] at hs
    split at hs
    · cases hs
      exact nofun
    · cases hs
      exact nofun
    · cases hs
  | subscriberCancelled =>
    cases hs
    exact nofun
  | close =>
    cases hs
    exact hw
  | closeNotify =>
    obtain ⟨-, ⟨⟩⟩ := Option.ite_none_right_eq_some.1 hs
    unfold System.notifyAll
    split
    · exact nofun
    · exact hw

/-- No wake-up is lost: while no notification is cancelled, a subscriber waits only where nothing above
its cursor is in the buffer, or a `refresh` is about to notify it. -/
theorem woken_along {p : OperationsProjection σ φ} {c : ℕ} {ls : List (Label σ)}
    (hrun : run (step fingerprint) (start p c) ls = some s)
    (hok : Along (step fingerprint) Notifies (start p c) ls) : s.Woken :=
  run_invariant_along (fun _ _ _ hw hl hs => hw.step hl hs) hrun hok nofun

end System

end RemoteRobot.Operations
