import TomAgent.Uplink.Metrics

/-!
# Sends to the channels of metric calls

The send loop, the receive loops and `failAllWaiters` may all have the same entry
of `metricAcks` in hand, and each of them sends to its channel.  If no goroutine
takes up an entry another one is at, and a `Send` fails only while its entry is
untouched or after its call has read the channel, every channel with a send to come
is empty.
-/

namespace TomAgent.Uplink.Metrics

open Handoff Execution

def Holds (s : Metrics) (who : Option Nat) (c : Nat) : Prop :=
  ∃ key, s.sweep who = .loaded key c ∨ s.sweep who = .delivered key c

/-- Some goroutine is about to send to the call's channel or to delete its key. -/
def Busy (s : Metrics) (c : Nat) : Prop :=
  (∃ who, s.Holds who c) ∨ ∃ σ, s.failing σ = some c

def Entered (s : Metrics) (c : Nat) : Prop := ∃ key, s.metricAcks key = some c

/-- One goroutine at a time completes a call. -/
def NoOverlap (s : Metrics) : Event → Prop
  | .load _ key => ∀ c ∈ s.metricAcks key, ¬ s.Busy c
  | .sendFails session => ∀ c ∈ s.metricOut.held session,
      Received s.phase c ∨ s.Entered c ∧ ¬ s.Busy c
  | _ => True

def Upcoming (s : Metrics) (c : Nat) : Prop :=
  s.next ≤ c ∨ s.phase c = .registered ∨ c ∈ s.metricOut.waiting

def Untouched (s : Metrics) (c : Nat) : Prop :=
  s.ch c = none ∧ ¬ Received s.phase c ∧ ¬ s.Entered c ∧ ¬ s.Busy c

structure ClearInv (s : Metrics) : Prop where
  exclusive : s.metricOut.Exclusive
  unborn : ∀ c, s.next ≤ c → s.phase c = .idle
  queued : ∀ c, s.metricOut.Pending c → c < s.next ∧ s.phase c ≠ .registered
  untouched : ∀ c, s.Upcoming c → s.Untouched c
  keys : ∀ key c, s.metricAcks key = some c → (s.batch c).sequence = key
  sweepKeys : ∀ who key c, s.sweep who = .loaded key c ∨ s.sweep who = .delivered key c →
    (s.batch c).sequence = key
  entered : ∀ c, s.Entered c → ¬ s.Busy c → s.ch c = none ∧ ¬ Received s.phase c
  loaded : ∀ who key c, s.sweep who = .loaded key c → s.ch c = none ∧ ¬ Received s.phase c
  alone : ∀ who key c, s.sweep who = .loaded key c →
    (∀ who', s.Holds who' c → who' = who) ∧ ∀ σ, s.failing σ ≠ some c
  failing : ∀ σ c, s.failing σ = some c →
    s.ch c = none ∧ ¬ s.Entered c ∧ ¬ s.metricOut.Pending c ∧ ∀ σ', s.failing σ' = some c → σ' = σ
  read : ∀ c, s.metricOut.Pending c → Received s.phase c → s.ch c = none

theorem start_untouched (wal accepted : List MetricBatch) (c : Nat) :
    (start wal accepted).Untouched c := by
  refine ⟨rfl, fun h => ?_, fun h => ?_, fun h => ?_⟩
  · obtain ⟨v, hv⟩ := h
    cases hv
  · obtain ⟨key, hkey⟩ := h
    cases hkey
  · rcases h with ⟨who, key, hwho | hwho⟩ | ⟨σ, hσ⟩
    · cases hwho
    · cases hwho
    · cases hσ

theorem start_clearInv (wal accepted : List MetricBatch) : (start wal accepted).ClearInv where
  exclusive := Queue.exclusive_empty
  unborn := fun _ _ => rfl
  queued := fun c hc => (Queue.not_pending_empty c hc).elim
  untouched := fun c _ => start_untouched wal accepted c
  keys := fun key c h => by cases h
  sweepKeys := fun who key c h => by
    cases h with
    | inl h => cases h
    | inr h => cases h
  entered := fun c h => absurd h (start_untouched wal accepted c).2.2.1
  loaded := fun who key c h => by cases h
  alone := fun who key c h => by cases h
  failing := fun σ c h => by cases h
  read := fun c hc => (Queue.not_pending_empty c hc).elim

/-- Every channel an event sends to is empty. -/
theorem ClearInv.sends_empty {s : Metrics} (h : s.ClearInv) (e : Event) :
    ∀ c ∈ s.sends e, s.ch c = none := by
  intro c hc
  cases e with
  | passError session => exact (h.failing session c (Option.mem_toList.mp hc)).1
  | deliver who =>
      cases who with
      | none => cases hc
      | some σ =>
          simp only [sends] at hc
          split at hc
          next key c' hsweep =>
            rw [List.mem_singleton.mp hc]
            exact (h.loaded (some σ) key c' hsweep).1
          next => cases hc
  | _ => cases hc

/-! ## Steps of calls -/

theorem ClearInv.lt_next {s : Metrics} (h : s.ClearInv) {c : Nat} (hc : s.phase c ≠ .idle) :
    c < s.next := by
  apply Nat.lt_of_not_le
  intro hle
  exact hc (h.unborn c hle)

theorem ClearInv.phase {s : Metrics} (h : s.ClearInv) {c : Nat} {p : Phase} (hc : c < s.next)
    (hread : ∀ v, p ≠ .returned (.received v)) (hreg : p ≠ .registered) :
    ClearInv { s with phase := Function.update s.phase c p } := by
  have hrec : ∀ {c'}, ¬ Received s.phase c' → ¬ Received (Function.update s.phase c p) c' :=
    fun hc' hrec => hc' (received_of_phase hread hrec)
  refine { h with unborn := ?_, queued := ?_, untouched := ?_, entered := ?_, loaded := ?_,
                  read := ?_ }
  · intro c' hc'
    have hle : s.next ≤ c' := hc'
    have hne : c' ≠ c := by omega
    simpa [hne] using h.unborn c' hc'
  · exact fun c' hc' => ⟨(h.queued c' hc').1, fun heq =>
      (h.queued c' hc').2 (registered_of_phase hreg heq)⟩
  · intro c' hc'
    have hup : s.Upcoming c' := by
      rcases hc' with hle | hphase | hwait
      · exact Or.inl hle
      · exact Or.inr (Or.inl (registered_of_phase hreg hphase))
      · exact Or.inr (Or.inr hwait)
    exact ⟨(h.untouched c' hup).1, hrec (h.untouched c' hup).2.1, (h.untouched c' hup).2.2⟩
  · exact fun c' hc' hfree => ⟨(h.entered c' hc' hfree).1, hrec (h.entered c' hc' hfree).2⟩
  · exact fun who key c' hc' => ⟨(h.loaded who key c' hc').1, hrec (h.loaded who key c' hc').2⟩
  · exact fun c' hc' hr => h.read c' hc' (received_of_phase hread hr)

theorem ClearInv.enqueue {s t : Metrics} (h : s.ClearInv) {c : Nat}
    (ht : s.Performs (.enqueue c) t) : t.ClearInv := by
  cases ht with
  | enqueue hreg hroom =>
      have hc : c < s.next := h.lt_next (by simp [hreg])
      have hmoved := h.phase (c := c) (p := .waiting) hc (by simp) (by simp)
      have hnew := h.untouched c (Or.inr (Or.inl hreg))
      have hfresh : ¬ s.metricOut.Pending c := fun hp => (h.queued c hp).2 hreg
      refine { hmoved with exclusive := h.exclusive.push hfresh, queued := ?_, untouched := ?_,
                           failing := ?_, read := ?_ }
      · intro c' hc'
        cases Queue.pending_push hc' with
        | inl heq =>
            subst heq
            exact ⟨hc, by simp⟩
        | inr hold => exact hmoved.queued c' hold
      · intro c' hc'
        by_cases heq : c' = c
        · subst heq
          refine ⟨hnew.1, fun hrec => ?_, hnew.2.2⟩
          exact hnew.2.1 (received_of_phase (by simp) hrec)
        · apply hmoved.untouched c'
          rcases hc' with hle | hphase | hwait
          · exact Or.inl hle
          · exact Or.inr (Or.inl hphase)
          · cases List.mem_append.mp hwait with
            | inl hold => exact Or.inr (Or.inr hold)
            | inr hlast => exact absurd (List.mem_singleton.mp hlast) heq
      · intro σ c' hσ
        obtain ⟨hempty, habsent, hpend, hsingle⟩ := hmoved.failing σ c' hσ
        refine ⟨hempty, habsent, fun hc' => ?_, hsingle⟩
        cases Queue.pending_push hc' with
        | inl heq => exact hnew.2.2.2 (Or.inr ⟨σ, heq ▸ hσ⟩)
        | inr hold => exact hpend hold
      · intro c' hc' hrec
        cases Queue.pending_push hc' with
        | inl heq =>
            obtain ⟨v, hv⟩ := hrec
            simp [heq] at hv
        | inr hold => exact hmoved.read c' hold hrec

theorem ClearInv.call {s : Metrics} (h : s.ClearInv) (b : MetricBatch) (live : Bool) :
    (s.call b live).ClearInv := by
  have hnew := h.untouched s.next (Or.inl (Nat.le_refl _))
  have hrec : ∀ {c}, ¬ Received s.phase c →
      ¬ Received (Function.update s.phase s.next .registered) c :=
    fun hc hrec => hc (received_of_phase (by simp) hrec)
  have hbatch : ∀ {c}, s.Entered c ∨ s.Busy c → Function.update s.batch s.next b c = s.batch c := by
    intro c hc
    apply Function.update_of_ne
    rintro rfl
    exact hc.elim hnew.2.2.1 hnew.2.2.2
  refine { h with unborn := ?_, queued := ?_, untouched := ?_, keys := ?_, sweepKeys := ?_,
                  entered := ?_, loaded := ?_, read := ?_ }
  · intro c hc
    have hlt : s.next < c := hc
    exact (Function.update_of_ne (Nat.ne_of_gt hlt) _ _).trans (h.unborn c (Nat.le_of_lt hlt))
  · intro c hc
    have hlt := (h.queued c hc).1
    have hsame : (s.call b live).phase c = s.phase c :=
      Function.update_of_ne (Nat.ne_of_lt hlt) _ _
    exact ⟨Nat.lt_succ_of_lt hlt, hsame ▸ (h.queued c hc).2⟩
  · intro c hc
    have hup : s.Upcoming c := by
      rcases hc with hle | hphase | hwait
      · exact Or.inl (Nat.le_of_succ_le hle)
      · cases update_cases hphase with
        | inl heq => exact Or.inl (Nat.le_of_eq heq.1.symm)
        | inr hold => exact Or.inr (Or.inl hold.2)
      · exact Or.inr (Or.inr hwait)
    exact ⟨(h.untouched c hup).1, hrec (h.untouched c hup).2.1, (h.untouched c hup).2.2⟩
  · intro key c hc
    exact (congrArg MetricBatch.sequence (hbatch (Or.inl ⟨key, hc⟩))).trans (h.keys key c hc)
  · intro who key c hc
    have hbusy : s.Busy c := Or.inl ⟨who, key, hc⟩
    exact (congrArg MetricBatch.sequence (hbatch (Or.inr hbusy))).trans (h.sweepKeys who key c hc)
  · exact fun c hc hfree => ⟨(h.entered c hc hfree).1, hrec (h.entered c hc hfree).2⟩
  · exact fun who key c hc => ⟨(h.loaded who key c hc).1, hrec (h.loaded who key c hc).2⟩
  · exact fun c hc hr => h.read c hc (received_of_phase (by simp) hr)

theorem ClearInv.receive {s t : Metrics} (h : s.ClearInv) {c : Nat}
    (ht : s.Performs (.receive c) t) : t.ClearInv := by
  cases ht with
  | @receive _ v hphase hch =>
      have hc : c < s.next := h.lt_next (by simp [hphase])
      -- Whatever is claimed to have an empty channel is another call.
      have hne : ∀ {c'}, s.ch c' = none → c' ≠ c := by
        intro c' hempty heq
        rw [heq, hch] at hempty
        cases hempty
      have hempty : ∀ {c'}, s.ch c' = none → Function.update s.ch c none c' = none := by
        intro c' hc'
        rw [Function.update_of_ne (hne hc')]
        exact hc'
      have hread : ∀ {c'}, c' ≠ c → Received (Function.update s.phase c (.returned (.received v))) c' →
          Received s.phase c' := by
        intro c' hne hrec
        obtain ⟨v', hv'⟩ := hrec
        exact ⟨v', by rwa [Function.update_of_ne hne] at hv'⟩
      refine { h with unborn := ?_, queued := ?_, untouched := ?_, entered := ?_, loaded := ?_,
                      failing := ?_, read := ?_ }
      · intro c' hc'
        have hle : s.next ≤ c' := hc'
        have hne' : c' ≠ c := by omega
        simpa [hne'] using h.unborn c' hc'
      · exact fun c' hc' => ⟨(h.queued c' hc').1, fun heq =>
          (h.queued c' hc').2 (registered_of_phase (by simp) heq)⟩
      · intro c' hc'
        have hup : s.Upcoming c' := by
          rcases hc' with hle | hphase | hwait
          · exact Or.inl hle
          · exact Or.inr (Or.inl (registered_of_phase (by simp) hphase))
          · exact Or.inr (Or.inr hwait)
        have hold := h.untouched c' hup
        exact ⟨hempty hold.1, fun hrec => hold.2.1 (hread (hne hold.1) hrec), hold.2.2⟩
      · intro c' hc' hfree
        have hold := h.entered c' hc' hfree
        exact ⟨hempty hold.1, fun hrec => hold.2 (hread (hne hold.1) hrec)⟩
      · intro who key c' hc'
        have hold := h.loaded who key c' hc'
        exact ⟨hempty hold.1, fun hrec => hold.2 (hread (hne hold.1) hrec)⟩
      · exact fun σ c' hc' => ⟨hempty (h.failing σ c' hc').1, (h.failing σ c' hc').2⟩
      · intro c' hc' hrec
        by_cases heq : c' = c
        · simp [heq]
        · exact hempty (h.read c' hc' (hread heq hrec))

/-! ## Steps of the send loops -/

theorem entered_of_delete {s : Metrics} {key c : Nat}
    (h : ∃ key', Function.update s.metricAcks key none key' = some c) :
    ∃ key', key' ≠ key ∧ s.metricAcks key' = some c := by
  obtain ⟨key', hkey'⟩ := h
  cases update_cases hkey' with
  | inl hnew => cases hnew.2
  | inr hold => exact ⟨key', hold⟩

/-- An entry that nobody is passing an error to has all its goroutines in passes. -/
theorem ClearInv.holds_of_busy {s : Metrics} (h : s.ClearInv) {c : Nat} (hc : s.Entered c)
    (hbusy : s.Busy c) : ∃ who, s.Holds who c := by
  cases hbusy with
  | inl hholds => exact hholds
  | inr hfail =>
      obtain ⟨σ, hσ⟩ := hfail
      exact absurd hc (h.failing σ c hσ).2.1

/-- A call whose batch has left the channel for a loop is no longer to come. -/
theorem ClearInv.not_upcoming {s : Metrics} (h : s.ClearInv) {c : Nat}
    (hc : s.metricOut.Pending c) {waiting : List Nat} (hnot : c ∉ waiting) :
    ¬ (s.next ≤ c ∨ s.phase c = .registered ∨ c ∈ waiting) := by
  have hknown := h.queued c hc
  rintro (hle | hphase | hmem)
  · exact Nat.not_le.mpr hknown.1 hle
  · exact hknown.2 hphase
  · exact hnot hmem

theorem ClearInv.take {s t : Metrics} (h : s.ClearInv) {session : Nat}
    (ht : s.Performs (.take session) t) : t.ClearInv := by
  cases ht with
  | @take _ c q hrunning htake =>
      have hwait : s.metricOut.waiting = c :: q.waiting := Queue.waiting_take htake
      have hmem : c ∈ s.metricOut.waiting := hwait ▸ List.mem_cons_self
      have hnew := h.untouched c (Or.inr (Or.inr hmem))
      have hnodup : (c :: q.waiting).Nodup := hwait ▸ h.exclusive.nodup
      have hcases : ∀ {c'}, (∃ key, Function.update s.metricAcks (s.batch c).sequence (some c) key =
          some c') → c' = c ∨ s.Entered c' := by
        intro c' hkey
        obtain ⟨key, hkey⟩ := hkey
        cases update_cases hkey with
        | inl heq => exact Or.inl (Option.some.inj heq.2).symm
        | inr hold => exact Or.inr ⟨key, hold.2⟩
      constructor
      case exclusive => exact h.exclusive.take htake
      case unborn => exact h.unborn
      case queued => exact fun c' hc' => h.queued c' (Queue.pending_take htake hc')
      case untouched =>
        intro c' hc'
        have hne : c' ≠ c := by
          rintro rfl
          exact h.not_upcoming (Or.inl hmem) (List.nodup_cons.mp hnodup).1 hc'
        have hup : s.Upcoming c' := by
          rcases hc' with hle | hphase | hmem'
          · exact Or.inl hle
          · exact Or.inr (Or.inl hphase)
          · exact Or.inr (Or.inr (hwait ▸ List.mem_cons_of_mem c hmem'))
        have hold := h.untouched c' hup
        exact ⟨hold.1, hold.2.1, fun hent => (hcases hent).elim hne hold.2.2.1, hold.2.2.2⟩
      case keys =>
        intro key c' hkey
        cases update_cases hkey with
        | inl heq =>
            cases heq.2
            exact heq.1.symm
        | inr hold => exact h.keys key c' hold.2
      case sweepKeys => exact h.sweepKeys
      case entered =>
        intro c' hc' hfree
        cases hcases hc' with
        | inl heq =>
            rw [heq]
            exact ⟨hnew.1, hnew.2.1⟩
        | inr hold => exact h.entered c' hold hfree
      case loaded => exact h.loaded
      case alone => exact h.alone
      case failing =>
        intro σ c' hσ
        obtain ⟨hempty, habsent, hpend, hsingle⟩ := h.failing σ c' hσ
        refine ⟨hempty, fun hent => ?_, fun hc' => hpend (Queue.pending_take htake hc'), hsingle⟩
        cases hcases hent with
        | inl heq => exact hpend (heq ▸ Or.inl hmem)
        | inr hold => exact habsent hold
      case read => exact fun c' hc' => h.read c' (Queue.pending_take htake hc')

theorem ClearInv.sendFails {s t : Metrics} (h : s.ClearInv) {session : Nat}
    (hmay : s.NoOverlap (.sendFails session)) (ht : s.Performs (.sendFails session) t) :
    t.ClearInv := by
  cases ht with
  | @sendFails _ c hheld =>
      have hpend : s.metricOut.Pending c := Or.inr ⟨session, hheld⟩
      have hempty : s.ch c = none :=
        (hmay c hheld).elim (h.read c hpend) fun hclear => (h.entered c hclear.1 hclear.2).1
      have hnoload : ∀ who key, s.sweep who ≠ .loaded key c := by
        intro who key hwho
        cases hmay c hheld with
        | inl hrec => exact (h.loaded who key c hwho).2 hrec
        | inr hclear => exact hclear.2 (Or.inl ⟨who, key, Or.inl hwho⟩)
      have hnofail : ∀ σ, s.failing σ ≠ some c := fun σ hσ => (h.failing σ c hσ).2.2.1 hpend
      have hentered : ∀ {c'}, (∃ key, Function.update s.metricAcks (s.batch c).sequence none key =
          some c') → c' ≠ c ∧ s.Entered c' := by
        intro c' hent
        obtain ⟨key, hne, hkey⟩ := entered_of_delete hent
        refine ⟨?_, key, hkey⟩
        rintro rfl
        exact hne (h.keys key c' hkey).symm
      have hcases : ∀ {σ c'}, Function.update s.failing session (some c) σ = some c' →
          σ = session ∧ c' = c ∨ σ ≠ session ∧ s.failing σ = some c' := by
        intro σ c' hσ
        exact (update_cases hσ).imp_left fun heq => ⟨heq.1, (Option.some.inj heq.2).symm⟩
      constructor
      case exclusive => exact h.exclusive.release session
      case unborn => exact h.unborn
      case queued => exact fun c' hc' => h.queued c' (Queue.pending_release hc')
      case untouched =>
        intro c' hc'
        have hne : c' ≠ c := by
          rintro rfl
          exact h.not_upcoming hpend (h.exclusive.apart session c' hheld) hc'
        have hold := h.untouched c' hc'
        refine ⟨hold.1, hold.2.1, fun hent => hold.2.2.1 (hentered hent).2, fun hbusy => ?_⟩
        rcases hbusy with hholds | ⟨σ, hσ⟩
        · exact hold.2.2.2 (Or.inl hholds)
        · exact (hcases hσ).elim (fun heq => hne heq.2) fun hprev =>
            hold.2.2.2 (Or.inr ⟨σ, hprev.2⟩)
      case keys =>
        intro key c' hkey
        cases update_cases hkey with
        | inl hnew => cases hnew.2
        | inr hold => exact h.keys key c' hold.2
      case sweepKeys => exact h.sweepKeys
      case entered =>
        intro c' hent hfree
        have hold := (hentered hent).2
        exact h.entered c' hold fun hbusy => hfree (Or.inl (h.holds_of_busy hold hbusy))
      case loaded => exact h.loaded
      case alone =>
        intro who key c' hwho
        refine ⟨(h.alone who key c' hwho).1, fun σ hσ => ?_⟩
        cases hcases hσ with
        | inl hnew => exact hnoload who key (hnew.2 ▸ hwho)
        | inr hold => exact (h.alone who key c' hwho).2 σ hold.2
      case failing =>
        intro σ c' hσ
        cases hcases hσ with
        | inl hnew =>
            obtain ⟨rfl, rfl⟩ := hnew
            refine ⟨hempty, fun hent => (hentered hent).1 rfl,
              h.exclusive.not_pending_release hheld, fun σ' hσ' => ?_⟩
            exact (hcases hσ').elim (fun heq => heq.1) fun hprev => absurd hprev.2 (hnofail σ')
        | inr hold =>
            obtain ⟨hch, habsent, hgone, hsingle⟩ := h.failing σ c' hold.2
            refine ⟨hch, fun hent => habsent (hentered hent).2,
              fun hc' => hgone (Queue.pending_release hc'), fun σ' hσ' => ?_⟩
            cases hcases hσ' with
            | inl hnew => exact absurd (hnew.2 ▸ hold.2) (hnofail σ)
            | inr hprev => exact hsingle σ' hprev.2
      case read => exact fun c' hc' => h.read c' (Queue.pending_release hc')

theorem ClearInv.passError {s t : Metrics} (h : s.ClearInv) {session : Nat}
    (ht : s.Performs (.passError session) t) : t.ClearInv := by
  cases ht with
  | @passError _ c hfail =>
      obtain ⟨-, habsent, hgone, hsingle⟩ := h.failing session c hfail
      have hother : ∀ {c'}, c' ≠ c → s.ch.fill [c] .error c' = s.ch c' := fun hne =>
        Slots.fill_of_not_mem (by simpa using hne)
      have hfailing : ∀ {σ c'}, Function.update s.failing session none σ = some c' →
          σ ≠ session ∧ s.failing σ = some c' := by
        intro σ c' hσ
        cases update_cases hσ with
        | inl hnew => cases hnew.2
        | inr hold => exact hold
      refine { h with untouched := ?_, entered := ?_, loaded := ?_, alone := ?_, failing := ?_,
                      read := ?_ }
      · intro c' hc'
        have hold := h.untouched c' hc'
        have hne : c' ≠ c := by
          rintro rfl
          exact hold.2.2.2 (Or.inr ⟨session, hfail⟩)
        refine ⟨(hother hne).trans hold.1, hold.2.1, hold.2.2.1, fun hbusy => hold.2.2.2 ?_⟩
        rcases hbusy with hholds | ⟨σ, hσ⟩
        · exact Or.inl hholds
        · exact Or.inr ⟨σ, (hfailing hσ).2⟩
      · intro c' hent hfree
        have hne : c' ≠ c := by
          rintro rfl
          exact habsent hent
        have hold := h.entered c' hent fun hbusy => hfree (Or.inl (h.holds_of_busy hent hbusy))
        exact ⟨(hother hne).trans hold.1, hold.2⟩
      · intro who key c' hwho
        have hne : c' ≠ c := by
          rintro rfl
          exact (h.alone who key c' hwho).2 session hfail
        exact ⟨(hother hne).trans (h.loaded who key c' hwho).1, (h.loaded who key c' hwho).2⟩
      · exact fun who key c' hwho => ⟨(h.alone who key c' hwho).1, fun σ hσ =>
          (h.alone who key c' hwho).2 σ (hfailing hσ).2⟩
      · intro σ c' hσ
        have hprev := hfailing hσ
        obtain ⟨hch, habsent', hgone', hsingle'⟩ := h.failing σ c' hprev.2
        have hne : c' ≠ c := by
          rintro rfl
          exact hprev.1 (hsingle σ hprev.2)
        exact ⟨(hother hne).trans hch, habsent', hgone', fun σ' hσ' => hsingle' σ' (hfailing hσ').2⟩
      · intro c' hc' hrec
        have hne : c' ≠ c := by
          rintro rfl
          exact hgone hc'
        exact (hother hne).trans (h.read c' hc' hrec)

/-! ## Steps of passes -/

/-- The entry a pass has in hand after a step of one of them. -/
theorem sweep_update {s t : Metrics} {who who' : Option Nat} {w : Sweep} {key c : Nat}
    (ht : t.sweep = Function.update s.sweep who w)
    (h : t.sweep who' = .loaded key c ∨ t.sweep who' = .delivered key c) :
    who' = who ∧ (w = .loaded key c ∨ w = .delivered key c) ∨
      who' ≠ who ∧ (s.sweep who' = .loaded key c ∨ s.sweep who' = .delivered key c) := by
  rw [ht] at h
  by_cases heq : who' = who
  · rw [heq, Function.update_self] at h
    exact Or.inl ⟨heq, h⟩
  · rw [Function.update_of_ne heq] at h
    exact Or.inr ⟨heq, h⟩

theorem holds_update {s t : Metrics} {who who' : Option Nat} {w : Sweep} {c : Nat}
    (ht : t.sweep = Function.update s.sweep who w) (h : t.Holds who' c) :
    who' = who ∧ (∃ key, w = .loaded key c ∨ w = .delivered key c) ∨
      who' ≠ who ∧ s.Holds who' c := by
  obtain ⟨key, hkey⟩ := h
  cases sweep_update ht hkey with
  | inl hnew => exact Or.inl ⟨hnew.1, key, hnew.2⟩
  | inr hold => exact Or.inr ⟨hold.1, key, hold.2⟩

theorem holds_of_ne {s t : Metrics} {who who' : Option Nat} {w : Sweep} {c : Nat}
    (ht : t.sweep = Function.update s.sweep who w) (hne : who' ≠ who) (h : s.Holds who' c) :
    t.Holds who' c := by
  obtain ⟨key, hkey⟩ := h
  exact ⟨key, by rwa [ht, Function.update_of_ne hne]⟩

theorem holds_delivered {s t : Metrics} {who who' : Option Nat} {key c c' : Nat}
    (hsweep : s.sweep who = .loaded key c)
    (ht : t.sweep = Function.update s.sweep who (.delivered key c)) :
    t.Holds who' c' ↔ s.Holds who' c' := by
  constructor
  · intro hc'
    rcases holds_update ht hc' with ⟨rfl, key', hkey' | hkey'⟩ | ⟨-, hold⟩
    · cases hkey'
    · cases hkey'
      exact ⟨key, Or.inl hsweep⟩
    · exact hold
  · intro hc'
    by_cases heq : who' = who
    · obtain ⟨key', hkey'⟩ := hc'
      rw [heq, hsweep] at hkey'
      rcases hkey' with hkey' | hkey'
      · cases hkey'
        exact ⟨key, Or.inr (by rw [ht, heq, Function.update_self])⟩
      · cases hkey'
    · exact holds_of_ne ht heq hc'

/-- A pass without an entry in hand starts, goes on or ends. -/
theorem ClearInv.pass {s t : Metrics} (h : s.ClearInv) {who : Option Nat} {w : Sweep}
    (hfrom : s.sweep who = .idle ∨ s.sweep who = .between) (hto : w = .idle ∨ w = .between)
    (hsweep : t.sweep = Function.update s.sweep who w) (hnext : t.next = s.next)
    (hbatch : t.batch = s.batch) (hphase : t.phase = s.phase) (hch : t.ch = s.ch)
    (hout : t.metricOut = s.metricOut) (hfailing : t.failing = s.failing)
    (hacks : t.metricAcks = s.metricAcks) : t.ClearInv := by
  have hsame : ∀ who' key c, (t.sweep who' = .loaded key c ↔ s.sweep who' = .loaded key c) ∧
      (t.sweep who' = .delivered key c ↔ s.sweep who' = .delivered key c) := by
    intro who' key c
    rw [hsweep]
    by_cases heq : who' = who
    · rw [heq, Function.update_self]
      rcases hfrom with hfrom | hfrom <;> rcases hto with hto | hto <;> simp [hfrom, hto]
    · simp [Function.update_of_ne heq]
  have hholds : ∀ who' c, t.Holds who' c ↔ s.Holds who' c := by
    intro who' c
    simp only [Holds, (hsame who' _ c).1, (hsame who' _ c).2]
  have hbusy : ∀ c, t.Busy c ↔ s.Busy c := by
    intro c
    simp only [Busy, hholds, hfailing]
  have hent : ∀ c, t.Entered c ↔ s.Entered c := by
    intro c
    simp only [Entered, hacks]
  constructor
  case exclusive => exact hout ▸ h.exclusive
  case unborn => exact hnext ▸ hphase ▸ h.unborn
  case queued => exact hout ▸ hnext ▸ hphase ▸ h.queued
  case untouched =>
    intro c hc
    have hup : s.Upcoming c := by
      unfold Upcoming at hc ⊢
      rwa [← hnext, ← hphase, ← hout]
    unfold Untouched
    rw [hch, hphase, hent, hbusy]
    exact h.untouched c hup
  case keys => exact hacks ▸ hbatch ▸ h.keys
  case sweepKeys =>
    intro who' key c hkey
    rw [(hsame who' key c).1, (hsame who' key c).2] at hkey
    rw [hbatch]
    exact h.sweepKeys who' key c hkey
  case entered =>
    intro c
    rw [hent, hbusy, hch, hphase]
    exact h.entered c
  case loaded =>
    intro who' key c
    rw [(hsame who' key c).1, hch, hphase]
    exact h.loaded who' key c
  case alone =>
    intro who' key c
    rw [(hsame who' key c).1, hfailing]
    intro hwho
    exact ⟨fun who₂ h₂ => (h.alone who' key c hwho).1 who₂ ((hholds who₂ c).mp h₂),
      (h.alone who' key c hwho).2⟩
  case failing =>
    intro σ c
    rw [hfailing, hch, hent, hout]
    exact h.failing σ c
  case read => exact hout ▸ hphase ▸ hch ▸ h.read

theorem ClearInv.load {s t : Metrics} (h : s.ClearInv) {who : Option Nat} {key : Nat}
    (hmay : s.NoOverlap (.load who key)) (ht : s.Performs (.load who key) t) :
    t.ClearInv := by
  cases ht with
  | @load _ _ c hsweep hkey hcovers =>
      have hfree : ¬ s.Busy c := hmay c hkey
      have hclear := h.entered c ⟨key, hkey⟩ hfree
      set t : Metrics := { s with sweep := Function.update s.sweep who (.loaded key c) }
      have hloaded : ∀ {who' key' c'}, t.sweep who' = .loaded key' c' →
          who' = who ∧ key' = key ∧ c' = c ∨ who' ≠ who ∧ s.sweep who' = .loaded key' c' := by
        intro who' key' c' hwho'
        refine (update_cases hwho').imp_left fun hnew => ?_
        cases hnew.2
        exact ⟨hnew.1, rfl, rfl⟩
      have hholds : ∀ {who' c'}, t.Holds who' c' → who' = who ∧ c' = c ∨ s.Holds who' c' := by
        intro who' c' hc'
        refine (holds_update rfl hc').imp (fun hnew => ⟨hnew.1, ?_⟩) And.right
        obtain ⟨key', hkey' | hkey'⟩ := hnew.2
        · cases hkey'
          rfl
        · cases hkey'
      have hbusy : ∀ {c'}, t.Busy c' → c' = c ∨ s.Busy c' := by
        intro c' hc'
        rcases hc' with ⟨who', hwho'⟩ | hfail
        · exact (hholds hwho').imp And.right fun hold => Or.inl ⟨who', hold⟩
        · exact Or.inr (Or.inr hfail)
      have hkept : ∀ {c'}, s.Busy c' → t.Busy c' := by
        intro c' hc'
        rcases hc' with ⟨who', key', hwho'⟩ | hfail
        · have hne : who' ≠ who := by
            rintro rfl
            rw [hsweep] at hwho'
            exact hwho'.elim Sweep.noConfusion Sweep.noConfusion
          exact Or.inl ⟨who', holds_of_ne rfl hne ⟨key', hwho'⟩⟩
        · exact Or.inr hfail
      refine { h with untouched := ?_, sweepKeys := ?_, entered := ?_, loaded := ?_, alone := ?_ }
      · intro c' hc'
        have hold := h.untouched c' hc'
        refine ⟨hold.1, hold.2.1, hold.2.2.1, fun hb => ?_⟩
        cases hbusy hb with
        | inl heq => exact hold.2.2.1 (heq ▸ ⟨key, hkey⟩)
        | inr hprev => exact hold.2.2.2 hprev
      · intro who' key' c' hwho'
        rcases sweep_update rfl hwho' with ⟨-, hnew | hnew⟩ | ⟨-, hold⟩
        · cases hnew
          exact h.keys key c hkey
        · cases hnew
        · exact h.sweepKeys who' key' c' hold
      · exact fun c' hc' hb => h.entered c' hc' fun hprev => hb (hkept hprev)
      · intro who' key' c' hwho'
        rcases hloaded hwho' with ⟨-, -, rfl⟩ | ⟨-, hold⟩
        · exact hclear
        · exact h.loaded who' key' c' hold
      · intro who' key' c' hwho'
        rcases hloaded hwho' with ⟨rfl, -, rfl⟩ | ⟨-, hold⟩
        · refine ⟨fun who₂ h₂ => ?_, fun σ hσ => hfree (Or.inr ⟨σ, hσ⟩)⟩
          exact (hholds h₂).elim And.left fun hprev => absurd (Or.inl ⟨who₂, hprev⟩) hfree
        · have hne : c' ≠ c := by
            rintro rfl
            exact hfree (Or.inl ⟨who', key', Or.inl hold⟩)
          refine ⟨fun who₂ h₂ => ?_, (h.alone who' key' c' hold).2⟩
          exact (hholds h₂).elim (fun heq => absurd heq.2 hne)
            ((h.alone who' key' c' hold).1 who₂)

theorem ClearInv.deliver {s t : Metrics} (h : s.ClearInv) {who : Option Nat}
    (ht : s.Performs (.deliver who) t) : t.ClearInv := by
  cases ht with
  | @deliver _ key c hsweep =>
      have hclear := h.loaded who key c hsweep
      obtain ⟨halone, hnofail⟩ := h.alone who key c hsweep
      have hbusyc : s.Busy c := Or.inl ⟨who, key, Or.inl hsweep⟩
      rw [if_pos hclear.1]
      set t : Metrics := { s with
        ch := s.ch.fill [c] (verdict who)
        sweep := Function.update s.sweep who (.delivered key c) }
      have hother : ∀ {c'}, c' ≠ c → t.ch c' = s.ch c' := fun hne =>
        Slots.fill_of_not_mem (by simpa using hne)
      have hloaded : ∀ {who' key' c'}, t.sweep who' = .loaded key' c' →
          who' ≠ who ∧ s.sweep who' = .loaded key' c' := by
        intro who' key' c' hwho'
        cases update_cases hwho' with
        | inl hnew => cases hnew.2
        | inr hold => exact hold
      have hholds : ∀ {who' c'}, t.Holds who' c' ↔ s.Holds who' c' := holds_delivered hsweep rfl
      have hbusy : ∀ {c'}, t.Busy c' ↔ s.Busy c' := by
        intro c'
        simp only [Busy, hholds]
        rfl
      refine { h with untouched := ?_, sweepKeys := ?_, entered := ?_, loaded := ?_, alone := ?_,
                      failing := ?_, read := ?_ }
      · intro c' hc'
        have hold := h.untouched c' hc'
        have hne : c' ≠ c := by
          rintro rfl
          exact hold.2.2.2 hbusyc
        exact ⟨(hother hne).trans hold.1, hold.2.1, hold.2.2.1, fun hb => hold.2.2.2 (hbusy.mp hb)⟩
      · intro who' key' c' hwho'
        rcases sweep_update rfl hwho' with ⟨-, hnew | hnew⟩ | ⟨-, hold⟩
        · cases hnew
        · cases hnew
          exact h.sweepKeys who key c (Or.inl hsweep)
        · exact h.sweepKeys who' key' c' hold
      · intro c' hent hfree
        have hfree' : ¬ s.Busy c' := fun hb => hfree (hbusy.mpr hb)
        have hne : c' ≠ c := by
          rintro rfl
          exact hfree' hbusyc
        exact ⟨(hother hne).trans (h.entered c' hent hfree').1, (h.entered c' hent hfree').2⟩
      · intro who' key' c' hwho'
        obtain ⟨hwho, hold⟩ := hloaded hwho'
        have hne : c' ≠ c := by
          rintro rfl
          exact hwho (halone who' ⟨key', Or.inl hold⟩)
        exact ⟨(hother hne).trans (h.loaded who' key' c' hold).1, (h.loaded who' key' c' hold).2⟩
      · intro who' key' c' hwho'
        have hold := h.alone who' key' c' (hloaded hwho').2
        exact ⟨fun who₂ h₂ => hold.1 who₂ (hholds.mp h₂), hold.2⟩
      · intro σ c' hσ
        have hold := h.failing σ c' hσ
        have hne : c' ≠ c := by
          rintro rfl
          exact hnofail σ hσ
        exact ⟨(hother hne).trans hold.1, hold.2⟩
      · intro c' hc' hrec
        have hne : c' ≠ c := by
          rintro rfl
          exact hclear.2 hrec
        exact (hother hne).trans (h.read c' hc' hrec)

theorem ClearInv.delete {s t : Metrics} (h : s.ClearInv) {who : Option Nat}
    (ht : s.Performs (.delete who) t) : t.ClearInv := by
  cases ht with
  | @delete _ key c hsweep =>
      set t : Metrics := { s with
        metricAcks := Function.update s.metricAcks key none
        sweep := Function.update s.sweep who .between }
      have hentered : ∀ {c'}, t.Entered c' → ∃ key', key' ≠ key ∧ s.metricAcks key' = some c' :=
        fun hent => entered_of_delete hent
      have hloaded : ∀ {who' key' c'}, t.sweep who' = .loaded key' c' →
          s.sweep who' = .loaded key' c' := by
        intro who' key' c' hwho'
        cases update_cases hwho' with
        | inl hnew => cases hnew.2
        | inr hold => exact hold.2
      have hholds : ∀ {who' c'}, t.Holds who' c' → s.Holds who' c' := by
        intro who' c' hc'
        rcases holds_update rfl hc' with ⟨-, key', hkey' | hkey'⟩ | ⟨-, hold⟩
        · cases hkey'
        · cases hkey'
        · exact hold
      have hbusy : ∀ {c'}, t.Busy c' → s.Busy c' := by
        intro c' hc'
        rcases hc' with ⟨who', hwho'⟩ | hfail
        · exact Or.inl ⟨who', hholds hwho'⟩
        · exact Or.inr hfail
      refine { h with untouched := ?_, keys := ?_, sweepKeys := ?_, entered := ?_, loaded := ?_,
                      alone := ?_, failing := ?_ }
      · intro c' hc'
        have hold := h.untouched c' hc'
        refine ⟨hold.1, hold.2.1, fun hent => hold.2.2.1 ?_, fun hb => hold.2.2.2 (hbusy hb)⟩
        obtain ⟨key', -, hkey'⟩ := hentered hent
        exact ⟨key', hkey'⟩
      · intro key' c' hkey'
        cases update_cases hkey' with
        | inl hnew => cases hnew.2
        | inr hold => exact h.keys key' c' hold.2
      · intro who' key' c' hwho'
        rcases sweep_update rfl hwho' with ⟨-, hnew | hnew⟩ | ⟨-, hold⟩
        · cases hnew
        · cases hnew
        · exact h.sweepKeys who' key' c' hold
      · intro c' hent hfree
        obtain ⟨key', hne, hkey'⟩ := hentered hent
        refine h.entered c' ⟨key', hkey'⟩ fun hb => hfree ?_
        obtain ⟨who', hwho'⟩ := h.holds_of_busy ⟨key', hkey'⟩ hb
        by_cases heq : who' = who
        · -- The pass was at this call, whose only key is deleted now.
          obtain ⟨key₂, hkey₂⟩ := hwho'
          have hgone := h.sweepKeys who' key₂ c' hkey₂
          rw [heq, hsweep] at hkey₂
          rcases hkey₂ with hkey₂ | hkey₂
          · cases hkey₂
          · cases hkey₂
            exact absurd ((h.keys key' c hkey').symm.trans hgone) hne
        · exact Or.inl ⟨who', holds_of_ne rfl heq hwho'⟩
      · exact fun who' key' c' hwho' => h.loaded who' key' c' (hloaded hwho')
      · intro who' key' c' hwho'
        have hold := h.alone who' key' c' (hloaded hwho')
        exact ⟨fun who₂ h₂ => hold.1 who₂ (hholds h₂), hold.2⟩
      · intro σ c' hσ
        have hold := h.failing σ c' hσ
        refine ⟨hold.1, fun hent => hold.2.1 ?_, hold.2.2⟩
        obtain ⟨key', -, hkey'⟩ := hentered hent
        exact ⟨key', hkey'⟩

theorem ClearInv.step {s t : Metrics} (h : s.ClearInv) {e : Event} (hmay : s.NoOverlap e)
    (he : s.step e = some t) : t.ClearInv := by
  have ht := performs_of_step he
  cases performs_of_step he with
  | enqueue => exact h.enqueue ht
  | take => exact h.take ht
  | sendFails => exact h.sendFails hmay ht
  | passError => exact h.passError ht
  | load => exact h.load hmay ht
  | deliver => exact h.deliver ht
  | delete => exact h.delete ht
  | receive => exact h.receive ht
  | flush => exact { h.call _ true with }
  | replay => exact h.call _ false
  | queueFull hreg => exact h.phase (h.lt_next (by simp [hreg])) (by simp) (by simp)
  | giveUp hwait => exact h.phase (h.lt_next (by simp [hwait])) (by simp) (by simp)
  | fallback => exact { h with }
  | sent hheld =>
      refine { h with exclusive := h.exclusive.release _, queued := ?_, failing := ?_, read := ?_ }
      · exact fun c' hc' => h.queued c' (Queue.pending_release hc')
      · intro σ c' hσ
        have hold := h.failing σ c' hσ
        exact ⟨hold.1, hold.2.1, fun hc' => hold.2.2.1 (Queue.pending_release hc'), hold.2.2.2⟩
      · exact fun c' hc' => h.read c' (Queue.pending_release hc')
  | accepted => exact { h with }
  | refused => exact { h with }
  | lose => exact { h with }
  | lateArrival => exact { h with }
  | recvAck hidle hacks => exact h.pass (Or.inl hidle) (Or.inr rfl) rfl rfl rfl rfl rfl rfl rfl rfl
  | failAllWaiters hidle => exact h.pass (Or.inl hidle) (Or.inr rfl) rfl rfl rfl rfl rfl rfl rfl rfl
  | endSweep hbetween => exact h.pass (Or.inr hbetween) (Or.inl rfl) rfl rfl rfl rfl rfl rfl rfl rfl

end TomAgent.Uplink.Metrics
