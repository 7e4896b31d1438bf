import TomAgent.Uplink.Metrics

/-!
# What a nil from `SendMetrics` says

An acknowledgement completes every channel entered under its number or a lower
one, whatever it was sent for.  It vouches for a waiting batch only if the batch
went ahead of the acknowledged one on the same stream.
-/

namespace TomAgent.Uplink.Metrics

open Handoff Execution

def Succeeded (s : Metrics) (c : Nat) : Prop := s.phase c = .returned (.received .ok)

instance (s : Metrics) (c : Nat) : Decidable (s.Succeeded c) := by
  unfold Succeeded; infer_instance

/-- An acknowledgement with this number is on its way or being applied, or will be
sent for a batch that is on its way. -/
def Outstanding (s : Metrics) (number : Nat) : Prop :=
  (∃ σ, ∃ b ∈ s.frames σ, b.sequence = number) ∨ (∃ σ, number ∈ s.acks σ) ∨
    ∃ σ, s.sweep (some σ) ≠ .idle ∧ s.acked σ = number

/-- Numbers go up along the stream.  A batch may be entered only under a number
above all outstanding ones, and may be sent only behind the batches that wait
under a number up to its own; batches the gateway has accepted do not count. -/
def InOrder (s : Metrics) : Event → Prop
  | .take _ => ∀ c ∈ s.metricOut.waiting.head?, s.batch c ∈ s.accepted ∨
      ∀ number, s.Outstanding number → number < (s.batch c).sequence
  | .sent session => ∀ c ∈ s.metricOut.held session, s.broken session = false →
      ∀ key c', s.metricAcks key = some c' → key ≤ (s.batch c).sequence →
        c' = c ∨ s.batch c' ∈ s.frames session ∨ s.batch c' ∈ s.accepted
  | _ => True

/-! ## Batches ahead of an acknowledgement -/

def Ahead (b : MetricBatch) (key : Nat) : List MetricBatch → Prop
  | [] => True
  | f :: rest => f = b ∨ f.sequence < key ∧ Ahead b key rest

theorem Ahead.of_forall_lt {b : MetricBatch} {key : Nat} {frames : List MetricBatch}
    (h : ∀ f ∈ frames, f.sequence < key) : Ahead b key frames := by
  induction frames with
  | nil => trivial
  | cons f rest ih =>
      exact Or.inr ⟨h f List.mem_cons_self, ih fun g hg => h g (List.mem_cons_of_mem f hg)⟩

theorem Ahead.take {b : MetricBatch} {key : Nat} {frames : List MetricBatch}
    (h : Ahead b key frames) (n : Nat) : Ahead b key (frames.take n) := by
  induction frames generalizing n with
  | nil =>
      rw [List.take_nil]
      trivial
  | cons f rest ih =>
      cases n with
      | zero => trivial
      | succ n => exact h.imp_right fun hrest => ⟨hrest.1, ih hrest.2 n⟩

theorem Ahead.push {b f : MetricBatch} {key : Nat} {frames : List MetricBatch}
    (h : Ahead b key frames) (hf : b ∈ frames ∨ f = b ∨ f.sequence < key) :
    Ahead b key (frames ++ [f]) := by
  induction frames with
  | nil =>
      have hf' : f = b ∨ f.sequence < key := hf.resolve_left List.not_mem_nil
      exact hf'.imp_right fun hlt => ⟨hlt, trivial⟩
  | cons g rest ih =>
      cases h with
      | inl heq => exact Or.inl heq
      | inr hrest =>
          by_cases heq : g = b
          · exact Or.inl heq
          · refine Or.inr ⟨hrest.1, ih hrest.2 (hf.imp_left fun hmem => ?_)⟩
            exact (List.mem_cons.mp hmem).resolve_left (Ne.symm heq)

/-! ## The invariant -/

/-- No acknowledgement on its way can complete the batch before the gateway has
accepted it. -/
structure Covered (s : Metrics) (b : MetricBatch) (key : Nat) : Prop where
  frames : ∀ σ, Ahead b key (s.frames σ)
  acks : ∀ σ, ∀ a ∈ s.acks σ, a < key
  acked : ∀ σ, s.sweep (some σ) ≠ .idle → s.acked σ < key

abbrev Answered (s : Metrics) (c : Nat) : Prop := Uplink.Answered s.ch s.phase c

inductive Known (s : Metrics) (c : Nat) : Prop where
  | registered (h : s.phase c = .registered)
  | queued (h : s.metricOut.Pending c)
  | entered (key : Nat) (h : s.metricAcks key = some c)
  | loaded (who : Option Nat) (key : Nat) (h : s.sweep who = .loaded key c)
  | answered (h : s.Answered c)

structure SoundInv (s : Metrics) : Prop where
  bound : ∀ c, s.Known c → c < s.next
  keys : ∀ key c, s.metricAcks key = some c → (s.batch c).sequence = key
  entered : ∀ key c, s.metricAcks key = some c →
    s.batch c ∈ s.accepted ∨ s.Covered (s.batch c) key
  loaded : ∀ σ key c, s.sweep (some σ) = .loaded key c → s.batch c ∈ s.accepted
  answered : ∀ c, s.Answered c → s.batch c ∈ s.accepted

theorem start_soundInv (wal accepted : List MetricBatch) : (start wal accepted).SoundInv where
  bound := fun c hc => by
    cases hc with
    | registered h => cases h
    | queued h => exact absurd h (Queue.not_pending_empty c)
    | entered key h => cases h
    | loaded who key h => cases h
    | answered h =>
        cases h with
        | inl h => cases h
        | inr h => cases h
  keys := fun key c h => by cases h
  entered := fun key c h => by cases h
  loaded := fun σ key c h => by cases h
  answered := fun c hc => by
    cases hc with
    | inl h => cases h
    | inr h => cases h

theorem Covered.mono {s t : Metrics} {b : MetricBatch} {key : Nat} (h : s.Covered b key)
    (hframes : ∀ σ, Ahead b key (s.frames σ) → Ahead b key (t.frames σ))
    (hacks : ∀ σ, t.acks σ ⊆ s.acks σ)
    (hacked : ∀ σ, t.sweep (some σ) ≠ .idle →
      s.sweep (some σ) ≠ .idle ∧ t.acked σ = s.acked σ) : t.Covered b key where
  frames := fun σ => hframes σ (h.frames σ)
  acks := fun σ a ha => h.acks σ a (hacks σ ha)
  acked := fun σ hσ => (hacked σ hσ).2 ▸ h.acked σ (hacked σ hσ).1

theorem Covered.sweep {s t : Metrics} {b : MetricBatch} {key : Nat} (h : s.Covered b key)
    {who : Option Nat} {w : Sweep} (hframes : t.frames = s.frames) (hacks : t.acks = s.acks)
    (hacked : t.acked = s.acked) (hsweep : t.sweep = Function.update s.sweep who w)
    (hbusy : ∀ σ, who = some σ → s.sweep who ≠ .idle) : t.Covered b key := by
  refine h.mono (fun σ => ?_) (fun σ => ?_) (fun σ hσ => ⟨?_, by rw [hacked]⟩)
  · rw [hframes]
    exact id
  · rw [hacks]
    exact List.Subset.refl _
  · by_cases hwho : some σ = who
    · rw [hwho]
      exact hbusy σ hwho.symm
    · rwa [hsweep, Function.update_of_ne hwho] at hσ

theorem SoundInv.shrink {s t : Metrics} (h : s.SoundInv) (hnext : t.next = s.next)
    (hbatch : t.batch = s.batch) (hreg : ∀ c, t.phase c = .registered → s.phase c = .registered)
    (hpend : ∀ c, t.metricOut.Pending c → s.Known c)
    (hentered : ∀ key c, t.metricAcks key = some c → s.metricAcks key = some c)
    (hloaded : ∀ who key c, t.sweep who = .loaded key c → s.sweep who = .loaded key c)
    (hans : ∀ c, t.Answered c → s.Answered c) (hacc : s.accepted ⊆ t.accepted)
    (hcov : ∀ key c, s.metricAcks key = some c → s.Covered (s.batch c) key →
      s.batch c ∈ t.accepted ∨ t.Covered (s.batch c) key) : t.SoundInv := by
  have hknown : ∀ c, t.Known c → s.Known c := by
    intro c hc
    cases hc with
    | registered h => exact .registered (hreg c h)
    | queued h => exact hpend c h
    | entered key h => exact .entered key (hentered key c h)
    | loaded who key h => exact .loaded who key (hloaded who key c h)
    | answered h => exact .answered (hans c h)
  constructor
  case bound => exact fun c hc => hnext ▸ h.bound c (hknown c hc)
  case keys => exact fun key c hc => hbatch ▸ h.keys key c (hentered key c hc)
  case entered =>
    intro key c hc
    rw [hbatch]
    cases h.entered key c (hentered key c hc) with
    | inl haccepted => exact Or.inl (hacc haccepted)
    | inr hcovered => exact hcov key c (hentered key c hc) hcovered
  case loaded => exact fun σ key c hc => hbatch ▸ hacc (h.loaded σ key c (hloaded _ key c hc))
  case answered => exact fun c hc => hbatch ▸ hacc (h.answered c (hans c hc))

/-! ## One step -/

theorem SoundInv.call {s : Metrics} (h : s.SoundInv) (b : MetricBatch) (live : Bool) :
    (s.call b live).SoundInv := by
  have hans : ∀ c, (s.call b live).Answered c → s.Answered c := by
    intro c hc
    cases hc with
    | inl hc => exact Or.inl hc
    | inr hc =>
        cases update_cases hc with
        | inl hnew => cases hnew.2
        | inr hold => exact Or.inr hold.2
  have hold : ∀ c, s.Known c → (s.call b live).batch c = s.batch c := fun c hc =>
    Function.update_of_ne (Nat.ne_of_lt (h.bound c hc)) _ _
  have hentered : ∀ key c, s.metricAcks key = some c → s.Known c := fun key c hc =>
    .entered key hc
  constructor
  case bound =>
    intro c hc
    have hlater : s.Known c → c < s.next + 1 := fun hc => Nat.lt_succ_of_lt (h.bound c hc)
    cases hc with
    | registered hphase =>
        cases update_cases hphase with
        | inl hnew => exact hnew.1 ▸ Nat.lt_succ_self _
        | inr hold => exact hlater (.registered hold.2)
    | queued hqueue => exact hlater (.queued hqueue)
    | entered key hkey => exact hlater (.entered key hkey)
    | loaded who key hwho => exact hlater (.loaded who key hwho)
    | answered hanswer => exact hlater (.answered (hans c hanswer))
  case keys =>
    intro key c hc
    rw [hold c (hentered key c hc)]
    exact h.keys key c hc
  case entered =>
    intro key c hc
    rw [hold c (hentered key c hc)]
    exact (h.entered key c hc).imp_right fun hcov =>
      hcov.mono (fun _ => id) (fun _ => List.Subset.refl _) (fun _ hσ => ⟨hσ, rfl⟩)
  case loaded =>
    intro σ key c hc
    rw [hold c (.loaded (some σ) key hc)]
    exact h.loaded σ key c hc
  case answered =>
    intro c hc
    have hc' := hans c hc
    rw [hold c (.answered hc')]
    exact h.answered c hc'

theorem SoundInv.take {s t : Metrics} (h : s.SoundInv) {session : Nat}
    (hmay : s.InOrder (.take session)) (ht : s.Performs (.take session) t) :
    t.SoundInv := by
  cases ht with
  | @take _ c q hrunning htake =>
      have hwait : s.metricOut.waiting = c :: q.waiting := Queue.waiting_take htake
      have hc : c < s.next := h.bound c (.queued (Or.inl (hwait ▸ List.mem_cons_self)))
      have hfresh := hmay c (by rw [hwait]; rfl)
      have hnew : s.batch c ∈ s.accepted ∨ s.Covered (s.batch c) (s.batch c).sequence := by
        refine hfresh.imp_right fun hlow => ⟨?_, ?_, ?_⟩
        · exact fun σ => Ahead.of_forall_lt fun f hf => hlow _ (Or.inl ⟨σ, f, hf, rfl⟩)
        · exact fun σ a ha => hlow a (Or.inr (Or.inl ⟨σ, ha⟩))
        · exact fun σ hσ => hlow _ (Or.inr (Or.inr ⟨σ, hσ, rfl⟩))
      have hcases : ∀ key c', Function.update s.metricAcks (s.batch c).sequence (some c) key =
          some c' → key = (s.batch c).sequence ∧ c' = c ∨ s.metricAcks key = some c' := by
        intro key c' hkey
        cases update_cases hkey with
        | inl hnew => exact Or.inl ⟨hnew.1, (Option.some.inj hnew.2).symm⟩
        | inr hold => exact Or.inr hold.2
      constructor
      case bound =>
        intro c' hc'
        cases hc' with
        | registered hphase => exact h.bound c' (.registered hphase)
        | queued hqueue => exact h.bound c' (.queued (Queue.pending_take htake hqueue))
        | entered key hkey =>
            cases hcases key c' hkey with
            | inl hnew => exact hnew.2 ▸ hc
            | inr hold => exact h.bound c' (.entered key hold)
        | loaded who key hwho => exact h.bound c' (.loaded who key hwho)
        | answered hanswer => exact h.bound c' (.answered hanswer)
      case keys =>
        intro key c' hkey
        cases hcases key c' hkey with
        | inl hnew => rw [hnew.1, hnew.2]
        | inr hold => exact h.keys key c' hold
      case entered =>
        intro key c' hkey
        have hsame : s.batch c' ∈ s.accepted ∨ s.Covered (s.batch c') key := by
          cases hcases key c' hkey with
          | inl hentry =>
              rw [hentry.1, hentry.2]
              exact hnew
          | inr hold => exact h.entered key c' hold
        exact hsame.imp_right fun hcov =>
          hcov.mono (fun _ => id) (fun _ => List.Subset.refl _) (fun _ hσ => ⟨hσ, rfl⟩)
      case loaded => exact h.loaded
      case answered => exact h.answered

theorem SoundInv.sent {s t : Metrics} (h : s.SoundInv) {session : Nat}
    (hmay : s.InOrder (.sent session)) (ht : s.Performs (.sent session) t) :
    t.SoundInv := by
  cases ht with
  | @sent _ c hheld =>
      refine h.shrink rfl rfl (fun _ => id) (fun c' hc' => .queued (Queue.pending_release hc'))
        (fun _ _ => id) (fun _ _ _ => id) (fun _ => id) (List.Subset.refl _) ?_
      intro key c' hkey hcov
      by_cases hbroken : s.broken session
      · right
        refine hcov.mono (fun σ hσ => ?_) (fun _ => List.Subset.refl _) (fun _ hσ => ⟨hσ, rfl⟩)
        simpa [hbroken] using hσ
      · have horder := hmay c hheld (by simpa using hbroken) key c' hkey
        by_cases haccepted : s.batch c' ∈ s.accepted
        · exact Or.inl haccepted
        · right
          refine hcov.mono (fun σ hσ => ?_) (fun _ => List.Subset.refl _) (fun _ hσ => ⟨hσ, rfl⟩)
          simp only [hbroken, Bool.false_eq_true, if_false]
          by_cases hsession : σ = session
          · subst hsession
            rw [Function.update_self]
            -- A waiting batch is ahead, is this one, or waits under a higher number.
            apply hσ.push
            by_cases hle : key ≤ (s.batch c).sequence
            · rcases horder hle with rfl | hahead | hdone
              · exact Or.inr (Or.inl rfl)
              · exact Or.inl hahead
              · exact absurd hdone haccepted
            · exact Or.inr (Or.inr (Nat.lt_of_not_le hle))
          · rw [Function.update_of_ne hsession]
            exact hσ

theorem SoundInv.serve {s t : Metrics} (h : s.SoundInv) {session : Nat} {ok : Bool}
    (ht : s.Performs (.serve session ok) t) : t.SoundInv := by
  cases ht with
  | @accepted _ f rest hframes =>
      refine h.shrink rfl rfl (fun _ => id) (fun _ hc => .queued hc) (fun _ _ => id) (fun _ _ _ => id)
        (fun _ => id) (List.subset_append_left _ _) ?_
      intro key c hkey hcov
      have hfirst : f = s.batch c ∨ f.sequence < key ∧ Ahead (s.batch c) key rest := by
        have hahead := hcov.frames session
        rwa [hframes] at hahead
      cases hfirst with
      | inl heq => exact Or.inl (heq ▸ List.mem_append_right _ List.mem_cons_self)
      | inr hlater =>
          right
          refine ⟨fun σ => ?_, fun σ a ha => ?_, hcov.acked⟩
          · by_cases hσ : σ = session
            · subst hσ
              simpa using hlater.2
            · simpa [hσ] using hcov.frames σ
          · cases mem_update ha with
            | inr hold => exact hcov.acks σ a hold
            | inl hnew =>
                cases List.mem_append.mp hnew.2 with
                | inl hold => exact hcov.acks session a hold
                | inr hlast => exact List.mem_singleton.mp hlast ▸ hlater.1
  | refused =>
      refine h.shrink rfl rfl (fun _ => id) (fun _ hc => .queued hc) (fun _ _ => id) (fun _ _ _ => id)
        (fun _ => id) (List.Subset.refl _) ?_
      intro key c hkey hcov
      right
      refine hcov.mono (fun σ hσ => ?_) (fun _ => List.Subset.refl _) (fun _ hσ => ⟨hσ, rfl⟩)
      by_cases hsession : σ = session
      · subst hsession
        simp [Ahead]
      · simpa [hsession] using hσ

/-- A receive loop loads only batches that the gateway has accepted. -/
theorem SoundInv.load {s t : Metrics} (h : s.SoundInv) {who : Option Nat} {key : Nat}
    (ht : s.Performs (.load who key) t) : t.SoundInv := by
  cases ht with
  | @load _ _ c hsweep hkey hcovers =>
      have hcases : ∀ who' key' c', Function.update s.sweep who (.loaded key c) who' =
          .loaded key' c' → who' = who ∧ c' = c ∨ s.sweep who' = .loaded key' c' := by
        intro who' key' c' hwho'
        cases update_cases hwho' with
        | inl hnew => exact Or.inl ⟨hnew.1, (Sweep.loaded.inj hnew.2).2.symm⟩
        | inr hold => exact Or.inr hold.2
      refine { h with bound := ?_, entered := ?_, loaded := ?_ }
      · intro c' hc'
        cases hc' with
        | registered hphase => exact h.bound c' (.registered hphase)
        | queued hqueue => exact h.bound c' (.queued hqueue)
        | entered key' hkey' => exact h.bound c' (.entered key' hkey')
        | answered hanswer => exact h.bound c' (.answered hanswer)
        | loaded who' key' hwho' =>
            cases hcases who' key' c' hwho' with
            | inl hnew => exact hnew.2 ▸ h.bound c (.entered key hkey)
            | inr hold => exact h.bound c' (.loaded who' key' hold)
      · intro key' c' hkey'
        exact (h.entered key' c' hkey').imp_right fun hcov =>
          hcov.sweep rfl rfl rfl rfl fun _ _ => by simp [hsweep]
      · intro σ key' c' hwho'
        cases hcases (some σ) key' c' hwho' with
        | inr hold => exact h.loaded σ key' c' hold
        | inl hnew =>
            rw [hnew.2]
            apply (h.entered key c hkey).resolve_right
            intro hcov
            have hbusy : s.sweep (some σ) ≠ .idle := by
              rw [hnew.1, hsweep]
              exact Sweep.noConfusion
            exact Nat.not_lt.mpr (hcovers σ hnew.1.symm) (hcov.acked σ hbusy)

theorem SoundInv.deliver {s t : Metrics} (h : s.SoundInv) {who : Option Nat}
    (ht : s.Performs (.deliver who) t) : t.SoundInv := by
  cases ht with
  | @deliver _ key c hsweep =>
      have hload : ∀ who' key' c', Function.update s.sweep who (.delivered key c) who' =
          .loaded key' c' → s.sweep who' = .loaded key' c' := by
        intro who' key' c' hwho'
        cases update_cases hwho' with
        | inl hnew => cases hnew.2
        | inr hold => exact hold.2
      -- Only a receive loop sends a nil, and only to the call it has loaded.
      have hans : ∀ c', ((if s.ch c = none then s.ch.fill [c] (verdict who) else s.ch) c' =
          some .ok ∨ s.Succeeded c') →
          s.Answered c' ∨ c' = c ∧ ∃ σ, s.sweep (some σ) = .loaded key c := by
        intro c' hc'
        cases hc' with
        | inr hc' => exact Or.inl (Or.inr hc')
        | inl hc' =>
            split at hc'
            next =>
              cases Slots.fill_eq_some hc' with
              | inr hold => exact Or.inl (Or.inl hold)
              | inl hnew =>
                  cases who with
                  | none => cases hnew.2
                  | some σ => exact Or.inr ⟨List.mem_singleton.mp hnew.1, σ, hsweep⟩
            next => exact Or.inl (Or.inl hc')
      constructor
      case bound =>
        intro c' hc'
        cases hc' with
        | registered hphase => exact h.bound c' (.registered hphase)
        | queued hqueue => exact h.bound c' (.queued hqueue)
        | entered key' hkey' => exact h.bound c' (.entered key' hkey')
        | loaded who' key' hwho' => exact h.bound c' (.loaded who' key' (hload who' key' c' hwho'))
        | answered hanswer =>
            cases hans c' hanswer with
            | inl hold => exact h.bound c' (.answered hold)
            | inr hnew => exact hnew.1 ▸ h.bound c (.loaded who key hsweep)
      case keys => exact h.keys
      case entered =>
        intro key' c' hkey'
        exact (h.entered key' c' hkey').imp_right fun hcov =>
          hcov.sweep rfl rfl rfl rfl fun _ _ => by simp [hsweep]
      case loaded => exact fun σ key' c' hc' => h.loaded σ key' c' (hload (some σ) key' c' hc')
      case answered =>
        intro c' hc'
        cases hans c' hc' with
        | inl hold => exact h.answered c' hold
        | inr hnew =>
            obtain ⟨rfl, σ, hσ⟩ := hnew
            exact h.loaded σ key c' hσ

theorem SoundInv.recvAck {s t : Metrics} (h : s.SoundInv) {session : Nat}
    (ht : s.Performs (.recvAck session) t) : t.SoundInv := by
  cases ht with
  | @recvAck _ a rest hsweep hacks =>
      refine h.shrink rfl rfl (fun _ => id) (fun _ hc => .queued hc) (fun _ _ => id) ?_
        (fun _ => id) (List.Subset.refl _) ?_
      · intro who key c hwho
        cases update_cases hwho with
        | inl hnew => cases hnew.2
        | inr hold => exact hold.2
      · intro key c hkey hcov
        right
        refine ⟨hcov.frames, fun σ a' ha' => ?_, fun σ hσ => ?_⟩
        · have hrest : rest ⊆ s.acks session := hacks ▸ List.subset_cons_self a rest
          exact hcov.acks σ a' (update_subset hrest σ ha')
        · by_cases hsession : σ = session
          · subst hsession
            simpa using hcov.acks σ a (hacks ▸ List.mem_cons_self)
          · have hother : some σ ≠ some session := fun heq => hsession (Option.some.inj heq)
            simp only [Function.update_of_ne hsession, Function.update_of_ne hother] at hσ ⊢
            exact hcov.acked σ hσ

/-- Steps of calls, channels and the WAL that leave the streams alone. -/
theorem SoundInv.local {s t : Metrics} (h : s.SoundInv) (hnext : t.next = s.next)
    (hbatch : t.batch = s.batch) (hreg : ∀ c, t.phase c = .registered → s.phase c = .registered)
    (hpend : ∀ c, t.metricOut.Pending c → s.Known c)
    (hentered : ∀ key c, t.metricAcks key = some c → s.metricAcks key = some c)
    (hans : ∀ c, t.Answered c → s.Answered c) (hacc : t.accepted = s.accepted)
    (hsweep : t.sweep = s.sweep) (hframes : t.frames = s.frames) (hacks : t.acks = s.acks)
    (hacked : t.acked = s.acked) : t.SoundInv := by
  refine h.shrink hnext hbatch hreg hpend hentered (fun who key c => ?_) hans
    (hacc ▸ List.Subset.refl _) (fun key c _ hcov => Or.inr ?_)
  · rw [hsweep]
    exact id
  · exact ⟨hframes ▸ hcov.frames, hacks ▸ hcov.acks, hsweep ▸ hacked ▸ hcov.acked⟩

theorem SoundInv.pass {s : Metrics} (h : s.SoundInv) {who : Option Nat} {w : Sweep}
    (hbusy : ∀ σ, who = some σ → s.sweep who ≠ .idle) (hw : ∀ key c, w ≠ .loaded key c) :
    SoundInv { s with sweep := Function.update s.sweep who w } := by
  refine h.shrink rfl rfl (fun _ => id) (fun _ hc => .queued hc) (fun _ _ => id) ?_ (fun _ => id)
    (List.Subset.refl _) (fun _ _ _ hcov => Or.inr (hcov.sweep rfl rfl rfl rfl hbusy))
  intro who' key c hwho
  cases update_cases hwho with
  | inl hnew => exact absurd hnew.2 (hw key c)
  | inr hold => exact hold.2

theorem SoundInv.phase {s : Metrics} (h : s.SoundInv) {c : Nat} {p : Phase}
    (hfail : p ≠ .returned (.received .ok)) (hreg : p ≠ .registered) :
    SoundInv { s with phase := Function.update s.phase c p } :=
  h.local rfl rfl (fun _ => registered_of_phase hreg) (fun _ hc => .queued hc) (fun _ _ => id)
    (fun _ hc => Answered.of_phase hfail hc) rfl rfl rfl rfl rfl

theorem SoundInv.delete {s t : Metrics} (h : s.SoundInv) {who : Option Nat}
    (ht : s.Performs (.delete who) t) : t.SoundInv := by
  cases ht with
  | @delete _ key c hsweep =>
      have hpass : SoundInv { s with sweep := Function.update s.sweep who .between } :=
        h.pass (fun _ _ => by simp [hsweep]) (by simp)
      refine hpass.local rfl rfl (fun _ => id) (fun _ hc => .queued hc) ?_ (fun _ => id)
        rfl rfl rfl rfl rfl
      intro key' c' hkey'
      cases update_cases hkey' with
      | inl hnew => cases hnew.2
      | inr hold => exact hold.2

theorem SoundInv.step {s t : Metrics} (h : s.SoundInv) {e : Event} (hmay : s.InOrder e)
    (he : s.step e = some t) : t.SoundInv := by
  have ht := performs_of_step he
  have same : ∀ {α : Type} (xs : List α), xs ⊆ xs := fun xs => List.Subset.refl xs
  cases performs_of_step he with
  | take => exact h.take hmay ht
  | sent => exact h.sent hmay ht
  | accepted => exact h.serve ht
  | refused => exact h.serve ht
  | recvAck => exact h.recvAck ht
  | load => exact h.load ht
  | deliver => exact h.deliver ht
  | delete => exact h.delete ht
  | flush =>
      exact (h.call _ true).local rfl rfl (fun _ => id) (fun _ hc => .queued hc)
        (fun _ _ => id) (fun _ => id) rfl rfl rfl rfl rfl
  | replay => exact h.call _ false
  | enqueue hreg =>
      refine h.local rfl rfl (fun _ => registered_of_phase (by simp)) (fun c' hc' => ?_)
        (fun _ _ => id) (fun _ hc => Answered.of_phase (by simp) hc) rfl rfl rfl rfl rfl
      cases Queue.pending_push hc' with
      | inl hnew => exact .registered (hnew ▸ hreg)
      | inr hold => exact .queued hold
  | queueFull => exact h.phase (by simp) (by simp)
  | giveUp => exact h.phase (by simp) (by simp)
  | receive hphase hch =>
      exact h.local rfl rfl (fun _ => registered_of_phase (by simp)) (fun _ hc => .queued hc)
        (fun _ _ => id) (fun _ hc => Answered.of_receive hch hc) rfl rfl rfl rfl rfl
  | fallback =>
      exact h.local rfl rfl (fun _ => id) (fun _ hc => .queued hc) (fun _ _ => id)
        (fun _ => id) rfl rfl rfl rfl rfl
  | sendFails hheld =>
      refine h.local rfl rfl (fun _ => id) (fun _ hc => .queued (Queue.pending_release hc)) ?_
        (fun _ => id) rfl rfl rfl rfl rfl
      intro key c' hkey
      cases update_cases hkey with
      | inl hnew => cases hnew.2
      | inr hold => exact hold.2
  | passError hfail =>
      exact h.local rfl rfl (fun _ => id) (fun _ hc => .queued hc) (fun _ _ => id)
        (fun _ hc => Answered.of_error hc) rfl rfl rfl rfl rfl
  | @lose session batches acks =>
      refine h.shrink rfl rfl (fun _ => id) (fun _ hc => .queued hc) (fun _ _ => id)
        (fun _ _ _ => id) (fun _ => id) (same _) (fun key c _ hcov => Or.inr ?_)
      refine hcov.mono (fun σ hσ => ?_) (update_subset (List.take_subset _ _))
        (fun _ hσ => ⟨hσ, rfl⟩)
      by_cases hsession : σ = session
      · subst hsession
        simpa using hσ.take batches
      · simpa [hsession] using hσ
  | lateArrival =>
      exact h.shrink rfl rfl (fun _ => id) (fun _ hc => .queued hc) (fun _ _ => id)
        (fun _ _ _ => id) (fun _ => id) (List.subset_append_left _ _)
        (fun _ _ _ hcov => Or.inr (hcov.mono (fun _ => id) (fun _ => same _)
          (fun _ hσ => ⟨hσ, rfl⟩)))
  | failAllWaiters => exact h.pass (fun _ hwho => by cases hwho) (by simp)
  | endSweep hsweep => exact h.pass (fun _ _ => by simp [hsweep]) (by simp)

/-! ## Runs -/

/-- In every run whose numbers go up along the stream, a nil means that the
gateway's sink has returned nil for that batch. -/
theorem send_metrics_sound (wal accepted : List MetricBatch) {s : Metrics}
    (hrun : Reaches (Fires step InOrder) (start wal accepted) s) :
    ∀ c, s.Succeeded c → s.batch c ∈ s.accepted := by
  have hinv : s.SoundInv := by
    refine Execution.invariant SoundInv ?_ (start_soundInv wal accepted) hrun
    intro s t hs ht
    obtain ⟨e, hmay, he⟩ := ht
    exact hs.step hmay he
  exact fun c hc => hinv.answered c (Or.inr hc)

def Event.session : Event → Option Nat
  | .take σ | .sent σ | .serve σ _ | .recvAck σ | .lose σ _ _ => some σ
  | .load who _ | .deliver who | .delete who | .endSweep who => who
  | _ => none

/-- The sessions from `k` on have not begun. -/
def Confined (s : Metrics) (k : Nat) : Prop :=
  ∀ σ, k ≤ σ → s.frames σ = [] ∧ s.acks σ = [] ∧ s.sweep (some σ) = .idle

theorem Confined.step {s t : Metrics} {e : Event} {k : Nat} (h : s.Confined k)
    (he : ∀ σ ∈ e.session, σ < k) (hp : s.Performs e t) : t.Confined k := by
  intro σ hσ
  obtain ⟨hframes, hacks, hsweep⟩ := h σ hσ
  have hpass : some σ ≠ e.session := fun heq => absurd (he σ heq.symm) (Nat.not_lt.mpr hσ)
  have hne : ∀ σ', e.session = some σ' → σ ≠ σ' := by
    rintro σ' hσ' rfl
    exact hpass hσ'.symm
  cases hp with
  | sent =>
      refine ⟨?_, hacks, hsweep⟩
      dsimp only
      split
      next => exact hframes
      next => rwa [Function.update_of_ne (hne _ rfl)]
  | accepted =>
      dsimp only
      rw [Function.update_of_ne (hne _ rfl), Function.update_of_ne (hne _ rfl)]
      exact ⟨hframes, hacks, hsweep⟩
  | refused =>
      dsimp only
      rw [Function.update_of_ne (hne _ rfl)]
      exact ⟨hframes, hacks, hsweep⟩
  | recvAck =>
      refine ⟨hframes, ?_, (Function.update_of_ne hpass _ _).trans hsweep⟩
      exact (Function.update_of_ne (hne _ rfl) _ _).trans hacks
  | lose =>
      dsimp only
      rw [Function.update_of_ne (hne _ rfl), Function.update_of_ne (hne _ rfl)]
      exact ⟨hframes, hacks, hsweep⟩
  | load => exact ⟨hframes, hacks, (Function.update_of_ne hpass _ _).trans hsweep⟩
  | deliver => exact ⟨hframes, hacks, (Function.update_of_ne hpass _ _).trans hsweep⟩
  | delete => exact ⟨hframes, hacks, (Function.update_of_ne hpass _ _).trans hsweep⟩
  | endSweep => exact ⟨hframes, hacks, (Function.update_of_ne hpass _ _).trans hsweep⟩
  | _ => exact ⟨hframes, hacks, hsweep⟩

def Below (s : Metrics) (k limit : Nat) : Prop :=
  ∀ σ ∈ List.range k, (∀ b ∈ s.frames σ, b.sequence < limit) ∧ (∀ a ∈ s.acks σ, a < limit) ∧
    (s.sweep (some σ) = .idle ∨ s.acked σ < limit)

instance (s : Metrics) (k limit : Nat) : Decidable (s.Below k limit) := by
  unfold Below; infer_instance

/-- `InOrder` for runs of at most `k` sessions, as a test. -/
def orderly (k : Nat) (s : Metrics) (e : Event) : Bool :=
  e.session.all (· < k) &&
    match e with
    | .take _ => s.metricOut.waiting.head?.all fun c =>
        s.batch c ∈ s.accepted ∨ s.Below k (s.batch c).sequence
    | .sent session => (s.metricOut.held session).all fun c =>
        (List.range ((s.batch c).sequence + 1)).all fun key =>
          (s.metricAcks key).all fun c' =>
            c' = c ∨ s.batch c' ∈ s.frames session ∨ s.batch c' ∈ s.accepted
    | _ => true

theorem Confined.lt_of_below {s : Metrics} {k limit number : Nat} (h : s.Confined k)
    (hbelow : s.Below k limit) (hout : s.Outstanding number) : number < limit := by
  have hsession : ∀ σ, (s.frames σ ≠ [] ∨ s.acks σ ≠ [] ∨ s.sweep (some σ) ≠ .idle) →
      σ ∈ List.range k := by
    intro σ hbusy
    rw [List.mem_range]
    by_contra hlate
    obtain ⟨hframes, hacks, hsweep⟩ := h σ (Nat.not_lt.mp hlate)
    simp [hframes, hacks, hsweep] at hbusy
  rcases hout with ⟨σ, b, hb, rfl⟩ | ⟨σ, ha⟩ | ⟨σ, hσ, rfl⟩
  · exact (hbelow σ (hsession σ (Or.inl (List.ne_nil_of_mem hb)))).1 b hb
  · exact (hbelow σ (hsession σ (Or.inr (Or.inl (List.ne_nil_of_mem ha))))).2.1 number ha
  · exact (hbelow σ (hsession σ (Or.inr (Or.inr hσ)))).2.2.resolve_left hσ

theorem Confined.inOrder {s : Metrics} {k : Nat} {e : Event} (h : s.Confined k)
    (he : orderly k s e = true) : s.InOrder e := by
  obtain ⟨-, htest⟩ := Bool.and_eq_true_iff.mp he
  cases e with
  | take session =>
      intro c hc
      rw [Option.mem_def.mp hc, Option.all_some] at htest
      exact (of_decide_eq_true htest).imp_right fun hbelow _ => h.lt_of_below hbelow
  | sent session =>
      intro c hc _ key c' hkey hle
      dsimp only at htest
      rw [Option.mem_def.mp hc, Option.all_some] at htest
      have hentry := List.all_eq_true.mp htest key (List.mem_range.mpr (Nat.lt_succ_of_le hle))
      rw [hkey, Option.all_some] at hentry
      exact of_decide_eq_true hentry
  | _ => trivial

theorem permitted_of_orderly {k : Nat} {es : List Event} {s : Metrics} (h : s.Confined k)
    (hes : permits step (orderly k) s es = true) : Permitted step InOrder s es := by
  induction es generalizing s with
  | nil => trivial
  | cons e es ih =>
      obtain ⟨hfirst, hrest⟩ := Bool.and_eq_true_iff.mp hes
      refine ⟨h.inOrder hfirst, fun t ht => ih (h.step ?_ (performs_of_step ht)) ?_⟩
      · intro σ hσ
        have hsession := (Bool.and_eq_true_iff.mp hfirst).1
        rw [Option.mem_def.mp hσ, Option.all_some] at hsession
        exact of_decide_eq_true hsession
      · rwa [ht, Option.all_some] at hrest

/-- The send of the first batch fails and the batch goes to the WAL.  After the reconnect the
replay enters it again, the second batch follows it on the stream, and both are
acknowledged. -/
theorem send_metrics_sound_replayed :
    ∃ t, Reaches (Fires step InOrder) (start [] []) t ∧ t.batch 0 = t.batch 1 ∧
      t.Succeeded 1 ∧ t.Succeeded 2 ∧ t.batch 1 ∈ t.accepted ∧ t.batch 2 ∈ t.accepted := by
  have hrun : ∃ t, Reaches (Fires step InOrder) (start [] []) t ∧ t.batch 0 = t.batch 1 ∧
      t.Succeeded 1 ∧ t.Succeeded 2 := reaches_of_any step
    [.flush [1], .enqueue 0, .take 0, .sendFails 0, .passError 0, .receive 0, .fallback 0,
      .replay ⟨1, [1]⟩, .enqueue 1, .take 1, .sent 1, .flush [2], .enqueue 2, .take 1, .sent 1,
      .serve 1 true, .serve 1 true, .recvAck 1, .load (some 1) 1, .deliver (some 1),
      .delete (some 1), .endSweep (some 1), .recvAck 1, .load (some 1) 2, .deliver (some 1),
      .delete (some 1), .endSweep (some 1), .receive 1, .receive 2]
    _ (permitted_of_orderly (k := 2) (fun _ _ => ⟨rfl, rfl, rfl⟩) (by decide)) (by decide)
  obtain ⟨t, hreach, hsame, hfirst, hsecond⟩ := hrun
  have hsound := send_metrics_sound [] [] hreach
  exact ⟨t, hreach, hsame, hfirst, hsecond, hsound 1 hfirst, hsound 2 hsecond⟩

/-- The send of the first batch fails and the batch goes to the WAL.  After the
reconnect the second batch is accepted; before its acknowledgement is read, the
replay enters the first one again.  The acknowledgement of number two completes
it, though it was never sent. -/
theorem cumulative_ack_credits_replay :
    ∃ t, Reaches (Fires step fun _ _ => True) (start [] []) t ∧ t.Succeeded 2 ∧
      t.batch 2 ∉ t.accepted :=
  reaches_of_any step
    [.flush [1], .enqueue 0, .take 0, .sendFails 0, .passError 0, .receive 0, .fallback 0,
      .flush [2], .enqueue 1, .take 1, .sent 1, .serve 1 true,
      .replay ⟨1, [1]⟩, .enqueue 2, .take 1, .recvAck 1, .load (some 1) 1, .deliver (some 1),
      .receive 2]
    (fun t => t.Succeeded 2 ∧ t.batch 2 ∉ t.accepted)
    (permitted_of_forall (fun _ _ _ => trivial) _) (by decide)

end TomAgent.Uplink.Metrics
