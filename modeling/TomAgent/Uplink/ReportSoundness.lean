import TomAgent.Uplink.Reports

/-!
# What a nil from `SendReliable` says

An acknowledgement names ids, not items.  A nil therefore says that every id of
the batch was acknowledged after the call started, each by the report of some
call of the same kind.  That is the batch itself only if ids tell the items
apart.
-/

namespace TomAgent.Uplink.Reports

open Handoff Execution

def Stored (s : Reports) (b : ReliableBatch) : Prop :=
  ∀ it ∈ b.items, (reportKindName (reportKindOf b.kind), it) ∈ s.persisted

def Succeeded (s : Reports) (c : Nat) : Prop := s.phase c = .returned (.received .ok)

instance (s : Reports) (b : ReliableBatch) : Decidable (s.Stored b) := by
  unfold Stored; infer_instance

instance (s : Reports) (c : Nat) : Decidable (s.Succeeded c) := by
  unfold Succeeded; infer_instance

def submitted (s : Reports) : Set ReliableBatch := { b | ∃ c < s.next, s.batch c = b }

/-- Every item of a batch is vouched for by one of the batch's ids: whatever batch
of that kind has the id has the item too. -/
def IdsIdentify (batches : Set ReliableBatch) : Prop :=
  ∀ b ∈ batches, ∀ it ∈ b.items, ∃ id ∈ b.ids, ∀ b' ∈ batches,
    b'.kind = b.kind → id ∈ b'.ids → it ∈ b'.items

/-- A call may start when its batch and the earlier ones keep ids identifying. -/
def KeepsIds (s : Reports) : Event → Prop
  | .register b => IdsIdentify (insert b s.submitted)
  | _ => True

/-- The simple case: no two items of one kind share an id. -/
theorem idsIdentify_of_inj {batches : Set ReliableBatch}
    (h : ∀ b ∈ batches, ∀ b' ∈ batches, b'.kind = b.kind → ∀ it ∈ b.items, ∀ it' ∈ b'.items,
      it'.id = it.id → it' = it) : IdsIdentify batches := by
  intro b hb it hit
  refine ⟨it.id, List.mem_map_of_mem hit, ?_⟩
  intro b' hb' hkind hid
  obtain ⟨it', hit', hsame⟩ := List.mem_map.mp hid
  rw [← h b hb b' hb' hkind it hit it' hit' hsame]
  exact hit'

/-! ## Credited ids -/

/-- The id was in a report of that kind whose items were all stored. -/
def Credited (s : Reports) (kind : ReportKind) (id : Bytes) : Prop :=
  ∃ b ∈ s.submitted, reportKindOf b.kind = kind ∧ id ∈ b.ids ∧ s.Stored b

theorem Credited.mono {s t : Reports} {kind : ReportKind} {id : Bytes} (h : s.Credited kind id)
    (hsub : s.submitted ⊆ t.submitted) (hper : s.persisted ⊆ t.persisted) :
    t.Credited kind id := by
  obtain ⟨b, hb, hkind, hid, hstored⟩ := h
  exact ⟨b, hsub hb, hkind, hid, fun it hit => hper (hstored it hit)⟩

theorem reportKindOf_injective : Function.Injective reportKindOf := by
  intro a b h
  cases a <;> cases b <;> first | rfl | cases h

/-- Where ids identify the items, a batch whose ids are all credited is stored. -/
theorem stored_of_credited {s : Reports} (hids : IdsIdentify s.submitted) {b : ReliableBatch}
    (hb : b ∈ s.submitted) (h : ∀ id ∈ b.ids, s.Credited (reportKindOf b.kind) id) :
    s.Stored b := by
  intro it hit
  obtain ⟨id, hid, hvouch⟩ := hids b hb it hit
  obtain ⟨b', hb', hkind, hid', hstored⟩ := h id hid
  have hitem : it ∈ b'.items := hvouch b' hb' (reportKindOf_injective hkind) hid'
  rw [← hkind]
  exact hstored it hitem

/-! ## The invariant -/

abbrev Answered (s : Reports) (c : Nat) : Prop := Uplink.Answered s.ch s.phase c

structure SoundInv (s : Reports) : Prop where
  ids : IdsIdentify s.submitted
  queued : ∀ c, s.reportOut.Pending c → c < s.next
  registered : ∀ c, s.phase c = .registered → c < s.next
  frames : ∀ σ, ∀ r ∈ s.frames σ, ∃ b ∈ s.submitted, b.report = r
  acks : ∀ σ, ∀ ack ∈ s.acks σ, ∀ id ∈ ack.ackedIds, s.Credited ack.kind id
  -- the ids a waiter has lost are credited
  known : ∀ w ∈ s.reportWait, w.call < s.next
  kinds : ∀ w ∈ s.reportWait, w.kind = reportKindOf (s.batch w.call).kind
  waiters : ∀ w ∈ s.reportWait, ∀ id ∈ (s.batch w.call).ids, id ∈ w.ids ∨ s.Credited w.kind id
  bound : ∀ c, s.Answered c → c < s.next
  answered : ∀ c, s.Answered c →
    ∀ id ∈ (s.batch c).ids, s.Credited (reportKindOf (s.batch c).kind) id

theorem SoundInv.sound {s : Reports} (h : s.SoundInv) {c : Nat} (hc : s.Succeeded c) :
    s.Stored (s.batch c) :=
  stored_of_credited h.ids ⟨c, h.bound c (Or.inr hc), rfl⟩ (h.answered c (Or.inr hc))

theorem init_soundInv : init.SoundInv where
  ids := fun b hb => by
    obtain ⟨c, hc, -⟩ := hb
    exact absurd hc (Nat.not_lt_zero c)
  queued := fun c hc => (Queue.not_pending_empty c hc).elim
  registered := fun c hc => by cases hc
  frames := fun σ r hr => by cases hr
  acks := fun σ ack hack => by cases hack
  known := fun w hw => by cases hw
  kinds := fun w hw => by cases hw
  waiters := fun w hw => by cases hw
  bound := fun c hc => by
    cases hc with
    | inl h => cases h
    | inr h => cases h
  answered := fun c hc => by
    cases hc with
    | inl h => cases h
    | inr h => cases h

theorem SoundInv.shrink {s t : Reports} (h : s.SoundInv) (hnext : t.next = s.next)
    (hbatch : t.batch = s.batch) (hper : t.persisted = s.persisted)
    (hqueued : ∀ c, t.reportOut.Pending c → c < s.next)
    (hreg : ∀ c, t.phase c = .registered → s.phase c = .registered)
    (hframes : ∀ σ, t.frames σ ⊆ s.frames σ) (hacks : ∀ σ, t.acks σ ⊆ s.acks σ)
    (hwait : t.reportWait ⊆ s.reportWait) (hans : ∀ c, t.Answered c → s.Answered c) :
    t.SoundInv := by
  have hsub : t.submitted = s.submitted := by
    unfold submitted
    rw [hnext, hbatch]
  have hcred : ∀ {kind id}, s.Credited kind id → t.Credited kind id := fun hc =>
    hc.mono (Eq.subset hsub.symm) (hper ▸ List.Subset.refl _)
  constructor
  case ids => exact hsub ▸ h.ids
  case queued => exact hnext ▸ hqueued
  case registered => exact fun c hc => hnext ▸ h.registered c (hreg c hc)
  case frames => exact fun σ r hr => hsub ▸ h.frames σ r (hframes σ hr)
  case acks => exact fun σ ack hack id hid => hcred (h.acks σ ack (hacks σ hack) id hid)
  case known => exact fun w hw => hnext ▸ h.known w (hwait hw)
  case kinds => exact fun w hw => hbatch ▸ h.kinds w (hwait hw)
  case waiters =>
    intro w hw id hid
    rw [hbatch] at hid
    exact (h.waiters w (hwait hw) id hid).imp_right hcred
  case bound => exact fun c hc => hnext ▸ h.bound c (hans c hc)
  case answered =>
    intro c hc id hid
    rw [hbatch] at hid ⊢
    exact hcred (h.answered c (hans c hc) id hid)

/-! ## One step -/

theorem submitted_register {s t : Reports} {b : ReliableBatch} (hnext : t.next = s.next + 1)
    (hbatch : t.batch = Function.update s.batch s.next b) :
    t.submitted = insert b s.submitted := by
  ext b'
  simp only [submitted, Set.mem_ofPred_eq, Set.mem_insert_iff, hnext, hbatch]
  constructor
  · rintro ⟨c, hc, rfl⟩
    by_cases hlast : c = s.next
    · rw [hlast, Function.update_self]
      exact Or.inl rfl
    · exact Or.inr ⟨c, by omega, (Function.update_of_ne hlast _ _).symm⟩
  · rintro (rfl | ⟨c, hc, rfl⟩)
    · exact ⟨s.next, Nat.lt_succ_self _, Function.update_self _ _ _⟩
    · exact ⟨c, Nat.lt_succ_of_lt hc, Function.update_of_ne (Nat.ne_of_lt hc) _ _⟩

theorem SoundInv.register {s : Reports} (h : s.SoundInv) {b : ReliableBatch}
    (hb : IdsIdentify (insert b s.submitted)) {t : Reports}
    (ht : s.Performs (.register b) t) : t.SoundInv := by
  cases ht
  have hold : ∀ c, c < s.next → Function.update s.batch s.next b c = s.batch c := fun c hc =>
    Function.update_of_ne (Nat.ne_of_lt hc) _ _
  set t : Reports := { s with
    next := s.next + 1
    batch := Function.update s.batch s.next b
    phase := Function.update s.phase s.next .registered
    reportWait := s.reportWait ++ [⟨reportKindOf b.kind, b.ids, s.next⟩] }
  have hsubmitted : t.submitted = insert b s.submitted := submitted_register rfl rfl
  have hgrow : s.submitted ⊆ t.submitted := by
    rw [hsubmitted]
    exact Set.subset_insert b _
  have hcred : ∀ {kind id}, s.Credited kind id → t.Credited kind id := fun hc =>
    hc.mono hgrow (List.Subset.refl _)
  have hans : ∀ c, t.Answered c → s.Answered c := by
    intro c hc
    cases hc with
    | inl hc => exact Or.inl hc
    | inr hc =>
        cases update_cases hc with
        | inl hnew => cases hnew.2
        | inr hold => exact Or.inr hold.2
  constructor
  case ids =>
    rw [hsubmitted]
    exact hb
  case queued => exact fun c hc => Nat.lt_succ_of_lt (h.queued c hc)
  case registered =>
    intro c hc
    cases update_cases hc with
    | inl hnew => exact hnew.1 ▸ Nat.lt_succ_self _
    | inr hold => exact Nat.lt_succ_of_lt (h.registered c hold.2)
  case frames =>
    intro σ r hr
    obtain ⟨b', hb', hreport⟩ := h.frames σ r hr
    exact ⟨b', hgrow hb', hreport⟩
  case acks => exact fun σ ack hack id hid => hcred (h.acks σ ack hack id hid)
  case known =>
    intro w hw
    cases List.mem_append.mp hw with
    | inl hw => exact Nat.lt_succ_of_lt (h.known w hw)
    | inr hw => exact List.mem_singleton.mp hw ▸ Nat.lt_succ_self _
  case kinds =>
    intro w hw
    cases List.mem_append.mp hw with
    | inl hw =>
        have hkind := h.kinds w hw
        rwa [← hold w.call (h.known w hw)] at hkind
    | inr hw =>
        rw [List.mem_singleton.mp hw]
        simp [t]
  case waiters =>
    intro w hw id hid
    cases List.mem_append.mp hw with
    | inl hw =>
        rw [show t.batch w.call = s.batch w.call from hold w.call (h.known w hw)] at hid
        exact (h.waiters w hw id hid).imp_right hcred
    | inr hw =>
        left
        rw [List.mem_singleton.mp hw] at hid ⊢
        simpa [t] using hid
  case bound => exact fun c hc => Nat.lt_succ_of_lt (h.bound c (hans c hc))
  case answered =>
    intro c hc id hid
    have hc' := hans c hc
    rw [show t.batch c = s.batch c from hold c (h.bound c hc')] at hid ⊢
    exact hcred (h.answered c hc' id hid)

theorem SoundInv.sent {s : Reports} (h : s.SoundInv) {session : Nat} {t : Reports}
    (ht : s.Performs (.sent session) t) : t.SoundInv := by
  cases ht with
  | @sent _ c hheld =>
      have hc : c < s.next := h.queued c (Or.inr ⟨session, hheld⟩)
      refine { h with queued := ?_, frames := ?_ }
      · exact fun c' hc' => h.queued c' (Queue.pending_release hc')
      · intro σ r hr
        cases mem_update hr with
        | inl hr =>
            cases List.mem_append.mp hr.2 with
            | inl hold => exact h.frames session r hold
            | inr hnew => exact ⟨s.batch c, ⟨c, hc, rfl⟩, (List.mem_singleton.mp hnew).symm⟩
        | inr hr => exact h.frames σ r hr

theorem SoundInv.store {s : Reports} (h : s.SoundInv) (more : List (String × ReliableItem)) :
    SoundInv { s with persisted := s.persisted ++ more } := by
  have hcred : ∀ {kind id}, s.Credited kind id →
      Credited { s with persisted := s.persisted ++ more } kind id := fun hc =>
    hc.mono (Set.Subset.refl _) (List.subset_append_left _ _)
  refine { h with acks := ?_, waiters := ?_, answered := ?_ }
  · exact fun σ ack hack id hid => hcred (h.acks σ ack hack id hid)
  · exact fun w hw id hid => (h.waiters w hw id hid).imp_right hcred
  · exact fun c hc id hid => hcred (h.answered c hc id hid)

theorem SoundInv.serve {s : Reports} (h : s.SoundInv) {session accepted : Nat} {t : Reports}
    (ht : s.Performs (.serve session accepted) t) : t.SoundInv := by
  cases ht with
  | @refused _ _ r rest hframes hrefused =>
      have hmid := h.store ((r.items.take accepted).map (reportKindName r.kind, ·))
      refine { hmid with frames := ?_ }
      exact fun σ r' hr' => h.frames σ r' (update_subset (List.nil_subset _) σ hr')
  | @accepted _ _ r rest hframes haccepted =>
      have hmid := h.store ((r.items.take accepted).map (reportKindName r.kind, ·))
      have hrest : rest ⊆ s.frames session := hframes ▸ List.subset_cons_self r rest
      refine { hmid with frames := ?_, acks := ?_ }
      · exact fun σ r' hr' => h.frames σ r' (update_subset hrest σ hr')
      · intro σ ack hack id hid
        cases mem_update hack with
        | inr hack => exact hmid.acks σ ack hack id hid
        | inl hack =>
            cases List.mem_append.mp hack.2 with
            | inl hold => exact hmid.acks session ack hold id hid
            | inr hnew =>
                -- The new acknowledgement is for a report that is now stored whole.
                rw [List.mem_singleton.mp hnew] at hid ⊢
                obtain ⟨b, hb, rfl⟩ := h.frames session r (hframes ▸ List.mem_cons_self)
                refine ⟨b, hb, rfl, hid, ?_⟩
                intro it hit
                rw [List.take_of_length_le (Nat.le_of_not_lt haccepted)]
                exact List.mem_append_right _ (List.mem_map_of_mem hit)

theorem SoundInv.recvAck {s : Reports} (h : s.SoundInv) {session : Nat} {t : Reports}
    (ht : s.Performs (.recvAck session) t) : t.SoundInv := by
  cases ht with
  | @recvAck _ ack rest hacks =>
      have hrest : rest ⊆ s.acks session := hacks ▸ List.subset_cons_self ack rest
      have hack := h.acks session ack (hacks ▸ List.mem_cons_self)
      -- The ids a waiter has lost with this acknowledgement are credited too.
      have hlost : ∀ w ∈ s.reportWait, ∀ id ∈ (s.batch w.call).ids,
          id ∈ (w.credit ack).ids ∨ s.Credited w.kind id := by
        intro w hw id hid
        cases h.waiters w hw id hid with
        | inr hcred => exact Or.inr hcred
        | inl hleft =>
            cases ReportWaiter.mem_credit hleft with
            | inl hstill => exact Or.inl hstill
            | inr hnow => exact Or.inr (hnow.1 ▸ hack id hnow.2)
      have hanswer : ∀ c, s.Answered c ∨ (∃ w ∈ s.reportWait, w.Done ack ∧ w.call = c) →
          c < s.next ∧ ∀ id ∈ (s.batch c).ids, s.Credited (reportKindOf (s.batch c).kind) id := by
        intro c hc
        cases hc with
        | inl hold => exact ⟨h.bound c hold, h.answered c hold⟩
        | inr hnew =>
            obtain ⟨w, hw, hdone, rfl⟩ := hnew
            refine ⟨h.known w hw, fun id hid => ?_⟩
            rw [← h.kinds w hw]
            apply (hlost w hw id hid).resolve_left
            rw [hdone.2]
            exact List.not_mem_nil
      have hcases : ∀ c, Answered { s with
            acks := Function.update s.acks session rest
            ch := s.ch.fill ((s.reportWait.filter (·.Done ack)).map ReportWaiter.call) .ok
            reportWait := (s.reportWait.filter (¬ ·.Done ack)).map (·.credit ack) } c →
          s.Answered c ∨ ∃ w ∈ s.reportWait, w.Done ack ∧ w.call = c := by
        intro c hc
        cases hc with
        | inr hc => exact Or.inl (Or.inr hc)
        | inl hc =>
            cases Slots.fill_eq_some hc with
            | inr hold => exact Or.inl (Or.inl hold)
            | inl hnew =>
                obtain ⟨w, hw, hcall⟩ := List.mem_map.mp hnew.1
                have hmem := List.mem_filter.mp hw
                exact Or.inr ⟨w, hmem.1, of_decide_eq_true hmem.2, hcall⟩
      have hkept : ∀ w ∈ (s.reportWait.filter (¬ ·.Done ack)).map (·.credit ack),
          ∃ w' ∈ s.reportWait, w'.credit ack = w := by
        intro w hw
        obtain ⟨w', hw', rfl⟩ := List.mem_map.mp hw
        exact ⟨w', (List.mem_filter.mp hw').1, rfl⟩
      refine { h with acks := ?_, known := ?_, kinds := ?_, waiters := ?_, bound := ?_,
                      answered := ?_ }
      · exact fun σ a ha => h.acks σ a (update_subset hrest σ ha)
      · intro w hw
        obtain ⟨w', hw', rfl⟩ := hkept w hw
        rw [ReportWaiter.credit_call]
        exact h.known w' hw'
      · intro w hw
        obtain ⟨w', hw', rfl⟩ := hkept w hw
        rw [ReportWaiter.credit_call, ReportWaiter.credit_kind]
        exact h.kinds w' hw'
      · intro w hw id hid
        obtain ⟨w', hw', rfl⟩ := hkept w hw
        rw [ReportWaiter.credit_call] at hid
        rw [ReportWaiter.credit_kind]
        exact hlost w' hw' id hid
      · exact fun c hc => (hanswer c (hcases c hc)).1
      · exact fun c hc => (hanswer c (hcases c hc)).2

theorem SoundInv.step {s t : Reports} (h : s.SoundInv) {e : Event} (hmay : s.KeepsIds e)
    (he : s.step e = some t) : t.SoundInv := by
  have ht := performs_of_step he
  have same : ∀ {α : Type} (xs : List α), xs ⊆ xs := fun xs => List.Subset.refl xs
  cases performs_of_step he with
  | register => exact h.register hmay ht
  | sent => exact h.sent ht
  | accepted => exact h.serve ht
  | refused => exact h.serve ht
  | recvAck => exact h.recvAck ht
  | receive hphase hch =>
      exact h.shrink rfl rfl rfl h.queued (fun c' => registered_of_phase (by simp))
        (fun _ => same _) (fun _ => same _) (same _) (fun _ hc => Answered.of_receive hch hc)
  | enqueue hreg =>
      refine h.shrink rfl rfl rfl ?_ (fun c' => registered_of_phase (by simp))
        (fun _ => same _) (fun _ => same _) (same _)
        (fun _ hc => Answered.of_phase (by simp) hc)
      intro c' hc'
      cases Queue.pending_push hc' with
      | inl hnew => exact hnew ▸ h.registered _ hreg
      | inr hold => exact h.queued c' hold
  | queueFull =>
      exact h.shrink rfl rfl rfl h.queued (fun c' => registered_of_phase (by simp))
        (fun _ => same _) (fun _ => same _) (fun _ hw => List.mem_of_mem_filter hw)
        (fun _ hc => Answered.of_phase (by simp) hc)
  | take hrunning htake =>
      exact h.shrink rfl rfl rfl (fun c' hc' => h.queued c' (Queue.pending_take htake hc'))
        (fun _ => id) (fun _ => same _) (fun _ => same _) (same _) (fun _ => id)
  | sendFails =>
      exact h.shrink rfl rfl rfl (fun c' hc' => h.queued c' (Queue.pending_release hc'))
        (fun _ => id) (fun _ => same _) (fun _ => same _) (same _)
        (fun _ hc => Answered.of_error hc)
  | failAllWaiters =>
      exact h.shrink rfl rfl rfl h.queued (fun _ => id) (fun _ => same _) (fun _ => same _)
        (List.nil_subset _) (fun _ hc => Answered.of_error hc)
  | lose =>
      exact h.shrink rfl rfl rfl h.queued (fun _ => id)
        (update_subset (List.take_subset _ _)) (update_subset (List.take_subset _ _))
        (same _) (fun _ => id)
  | giveUp =>
      exact h.shrink rfl rfl rfl h.queued (fun c' => registered_of_phase (by simp))
        (fun _ => same _) (fun _ => same _) (same _)
        (fun _ hc => Answered.of_phase (by simp) hc)

/-! ## Runs -/

theorem soundInv_of_run {s : Reports} (h : Reaches (Fires step KeepsIds) init s) :
    s.SoundInv := by
  refine Execution.invariant SoundInv ?_ init_soundInv h
  intro s t hs ht
  obtain ⟨e, hmay, he⟩ := ht
  exact hs.step hmay he

theorem insert_submitted (s : Reports) (b : ReliableBatch) :
    insert b s.submitted = { b' | b' ∈ b :: (List.range s.next).map s.batch } := by
  ext b'
  simp [submitted]

instance (batches : List ReliableBatch) : Decidable (IdsIdentify { b | b ∈ batches }) :=
  inferInstanceAs (Decidable (∀ b ∈ batches, ∀ it ∈ b.items, ∃ id ∈ b.ids, ∀ b' ∈ batches,
    b'.kind = b.kind → id ∈ b'.ids → it ∈ b'.items))

instance (s : Reports) : ∀ e, Decidable (s.KeepsIds e)
  | .register b => decidable_of_iff (IdsIdentify { b' | b' ∈ b :: (List.range s.next).map s.batch })
      (by rw [KeepsIds, insert_submitted])
  | .enqueue _ | .queueFull _ | .take _ | .sent _ | .sendFails _ | .serve .. | .recvAck _
    | .failAllWaiters | .lose .. | .receive _ | .giveUp _ => isTrue trivial

/-- In every run whose calls keep ids identifying, a nil means that the gateway's
sink has returned nil for every item of the batch. -/
theorem send_reliable_sound {s : Reports} (hrun : Reaches (Fires step KeepsIds) init s) :
    ∀ c, s.Succeeded c → s.Stored (s.batch c) :=
  fun _ hc => (soundInv_of_run hrun).sound hc

/-- A call for two results times out and is made again with the same items, after a call for
a third one.  The late acknowledgement of the first report completes the second attempt. -/
theorem send_reliable_sound_retried :
    ∃ t, Reaches (Fires step KeepsIds) init t ∧ t.phase 0 = .returned .gaveUp ∧
      t.batch 2 = t.batch 0 ∧ t.Succeeded 2 ∧ t.Stored (t.batch 2) := by
  have hrun : ∃ t, Reaches (Fires step KeepsIds) init t ∧ t.phase 0 = .returned .gaveUp ∧
      t.batch 2 = t.batch 0 ∧ t.Succeeded 2 := reaches_of_any step
    [.register ⟨.results, [⟨[1], [10]⟩, ⟨[2], [20]⟩]⟩, .enqueue 0, .take 0, .sent 0, .serve 0 2,
      .giveUp 0, .register ⟨.results, [⟨[3], [30]⟩]⟩, .enqueue 1,
      .register ⟨.results, [⟨[1], [10]⟩, ⟨[2], [20]⟩]⟩, .enqueue 2, .recvAck 0, .receive 2]
    _ (permitted_of_decide (by decide)) (by decide)
  obtain ⟨t, hreach, htimeout, hsame, hok⟩ := hrun
  exact ⟨t, hreach, htimeout, hsame, hok, send_reliable_sound hreach 2 hok⟩

/-- A call for one result times out; its acknowledgement is on the way when the
next call sends that result again together with a second one for the same command.
The late acknowledgement completes both calls. -/
theorem late_ack_credits_unsent_item :
    ∃ t, Reaches (Fires step fun _ _ => True) init t ∧ t.Succeeded 1 ∧
      ¬ t.Stored (t.batch 1) :=
  reaches_of_any step
    [.register ⟨.results, [⟨[1], [10]⟩]⟩, .enqueue 0, .take 0, .sent 0, .serve 0 1, .giveUp 0,
      .register ⟨.results, [⟨[1], [10]⟩, ⟨[1], [20]⟩]⟩, .enqueue 1, .recvAck 0, .receive 1]
    (fun t => t.Succeeded 1 ∧ ¬ t.Stored (t.batch 1))
    (permitted_of_forall (fun _ _ _ => trivial) init) (by decide)

end TomAgent.Uplink.Reports
