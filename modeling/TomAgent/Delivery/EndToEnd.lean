import TomAgent.Delivery.Pipeline
import TomAgent.Reporter.AtLeastOnce
import TomAgent.Uplink.ReportSoundness

/-!
# Nothing is lost between the disk and the sink

A replay loop believes the uplink, and the uplink believes acknowledgements that name
ids.  As long as an id is used once in its queue the two errors this invites cannot
happen: what the cursor on disk has passed is in the sink, and the sink has the items
of a queue in the order of the log, up to repetitions.

The order needs an argument about batches that are still under way, since a call that
has given up leaves its report in the queue or on a stream.  Such a report starts where
the cursor was when the call began, and everything before that was recorded by then.
-/

namespace TomAgent.Uplink.Reports

open Handoff

theorem reportKindName_reportKindOf {kind kind' : QueueKind}
    (h : reportKindName (reportKindOf kind) = reportKindName (reportKindOf kind')) :
    kind = kind' := by
  cases kind <;> cases kind' <;> first | rfl | exact absurd h (by decide)

theorem SoundInv.restart {s : Reports} (h : s.SoundInv) : s.restart.SoundInv := by
  refine h.shrink rfl rfl rfl (fun c hc => (Queue.not_pending_empty c hc).elim) ?_
    (fun _ => List.Subset.refl _) (fun _ => List.nil_subset _) (List.nil_subset _) ?_
  · intro c hc
    simp only [Reports.restart] at hc
    split at hc <;> cases hc
  · intro c hc
    cases hc with
    | inl hch => cases hch
    | inr hphase =>
        simp only [Reports.restart] at hphase
        split at hphase
        next outcome hold => exact Or.inr (hold.trans hphase)
        next => cases hphase

/-- A step that starts no call leaves the calls as they are; the sink may record a part of
a report that was on its way. -/
theorem Performs.keeps_calls {s t : Reports} {e : Event} (h : s.Performs e t)
    (hevent : ∀ b, e ≠ .register b) :
    t.next = s.next ∧ t.batch = s.batch ∧ (t.persisted = s.persisted ∨
      ∃ σ, ∃ r ∈ s.frames σ, ∃ n, t.persisted =
        s.persisted ++ (r.items.take n).map (reportKindName r.kind, ·)) := by
  cases h with
  | register => exact absurd rfl (hevent _)
  | @refused σ n r rest hframes =>
      exact ⟨rfl, rfl, Or.inr ⟨σ, r, hframes ▸ List.mem_cons_self, n, rfl⟩⟩
  | @accepted σ n r rest hframes =>
      exact ⟨rfl, rfl, Or.inr ⟨σ, r, hframes ▸ List.mem_cons_self, n, rfl⟩⟩
  | _ => exact ⟨rfl, rfl, Or.inl rfl⟩

theorem recorded_append {s t : Reports} {b : ReliableBatch} {items : List ReliableItem}
    (h : t.persisted = s.persisted ++ items.map (reportKindName b.report.kind, ·))
    (kind : QueueKind) :
    t.recorded kind = s.recorded kind ++ if kind = b.kind then items else [] := by
  simp only [recorded, h, List.filterMap_append, List.append_cancel_left_eq, List.filterMap_map]
  split
  next hkind =>
    subst hkind
    simp [Function.comp_def, ReliableBatch.report]
  next hkind =>
    have hname : reportKindName b.report.kind ≠ reportKindName (reportKindOf kind) :=
      fun heq => hkind (reportKindName_reportKindOf heq).symm
    simp [hname]

theorem mem_recorded {s : Reports} {kind : QueueKind} {it : ReliableItem} :
    it ∈ s.recorded kind ↔ (reportKindName (reportKindOf kind), it) ∈ s.persisted := by
  simp only [recorded, List.mem_filterMap, Option.ite_none_right_eq_some, Option.some.injEq]
  constructor
  · rintro ⟨r, hr, hname, rfl⟩
    rwa [← hname]
  · intro h
    exact ⟨_, h, rfl, rfl⟩

end TomAgent.Uplink.Reports

namespace TomAgent.Delivery

open JsonText Execution Reporter Replay
open Uplink (QueueKind Reports)

theorem utf8_injective : Function.Injective utf8 := by
  intro a b h
  have htext := congrArg ofUtf8 h
  rw [ofUtf8_utf8, ofUtf8_utf8] at htext
  exact Option.some.inj htext

/-- The log of a queue as the sink would record it. -/
def wireLog (q : Queue) : List Uplink.ReliableItem := q.log.map fun e => wireItem e.2

/-- No two records of the log have an id in common. -/
def DistinctIds (q : Queue) : Prop := (q.log.map fun e => e.2.id).Nodup

theorem DistinctIds.wire {q : Queue} (h : DistinctIds q) :
    ((wireLog q).map Uplink.ReliableItem.id).Nodup := by
  have hinj : Function.Injective fun id : String => utf8 id.toList := fun a b hab =>
    String.toList_injective (utf8_injective hab)
  have hmap := h.map hinj
  rw [List.map_map] at hmap
  rw [wireLog, List.map_map]
  exact hmap

theorem DistinctIds.nodup {q : Queue} (h : DistinctIds q) : (wireLog q).Nodup :=
  List.Nodup.of_map _ h.wire

/-! ## What a cursor has passed -/

/-- Every record before the position of the cursor was in an accepted batch. -/
theorem passed_delivered {q : Queue} {j : Wal.Journal}
    {s : State (Wal.WalCursor × ReliableItem)} (h : q.Refines j s)
    (hrun : Reaches Step State.start s) {e : Wal.WalCursor × ReliableItem}
    (he : e ∈ q.log.take s.position) : ∃ d ∈ q.accepted, e.2 ∈ d.batch.items := by
  obtain ⟨reached, hinv⟩ := inv_of_run hrun
  have hposition := hinv.position_le
  obtain ⟨i, hi, rfl⟩ := List.mem_take_iff_getElem.mp he
  obtain ⟨w, hw, hlow, hhigh⟩ := hinv.covered i (by omega)
  obtain ⟨d, hd, hcopies⟩ := h.exists_delivery hw
  have hcopy : q.log[i] ∈ q.copies d := by
    rw [hcopies]
    exact mem_window hlow hhigh (by omega)
  refine ⟨d, hd, ?_⟩
  rw [← h.copies_items hd]
  exact List.mem_map_of_mem hcopy

/-! ## The invariant -/

/-- The batch is a window of the log, and everything before it is recorded. -/
structure Ordered (log recorded items : List Uplink.ReliableItem) (w : Nat × Nat) : Prop where
  upTo : w.2 ≤ log.length
  items : items = window log w
  past : Passed log recorded w.1

theorem Ordered.mono {log recorded items : List Uplink.ReliableItem} {w : Nat × Nat}
    (h : Ordered log recorded items w) {log' recorded' : List Uplink.ReliableItem}
    (hlog : log <+: log') (hrecorded : recorded ⊆ recorded') :
    Ordered log' recorded' items w := by
  refine ⟨Nat.le_trans h.upTo hlog.length_le, ?_, h.past.grow hlog hrecorded⟩
  obtain ⟨extra, rfl⟩ := hlog
  rw [window_append log extra h.upTo]
  exact h.items

/-- A queue beside the uplink; `calling` is the call its loop is in. -/
structure QueueInv (u : Reports) (calling : Option Nat) (kind : QueueKind) (q : Queue) :
    Prop where
  ids : DistinctIds q
  ofKind : ∀ batch next, q.phase = .sending batch next → batch.kind = kind
  stored : ∀ d ∈ q.accepted, ∀ it ∈ d.batch.items, wireItem it ∈ u.recorded kind
  sent : ∀ c < u.next, (u.batch c).kind = kind →
    ∃ w, Ordered (wireLog q) (u.recorded kind) (u.batch c).items w
  order : (u.recorded kind).eraseDups <+: wireLog q
  calling : ∀ c, calling = some c → c < u.next ∧
    ∃ batch next, q.phase = .sending batch next ∧ u.batch c = wireBatch batch

structure Pipeline.Inv (p : Pipeline) : Prop where
  replays : AllReplay p.reporter
  sound : p.uplink.SoundInv
  queues : ∀ kind q, p.reporter.queues kind = some q → QueueInv p.uplink (p.calling kind) kind q
  known : ∀ c < p.uplink.next, (p.reporter.queues (p.uplink.batch c).kind).isSome

/-! ## Steps of a queue -/

namespace QueueInv

variable {u : Reports} {calling : Option Nat} {kind : QueueKind} {q q' : Queue}

theorem grow (h : QueueInv u calling kind q) (q' : Queue) (hlog : q.log <+: q'.log)
    (hids : DistinctIds q') (haccepted : q'.accepted = q.accepted)
    (hkind : ∀ batch next, q'.phase = .sending batch next → batch.kind = kind)
    {calling' : Option Nat}
    (hcalling : ∀ c, calling' = some c → calling = some c ∧ q'.phase = q.phase) :
    QueueInv u calling' kind q' := by
  have hwire : wireLog q <+: wireLog q' := hlog.map _
  refine ⟨hids, hkind, ?_, ?_, h.order.trans hwire, ?_⟩
  · rw [haccepted]
    exact h.stored
  · intro c hc hsame
    obtain ⟨w, hw⟩ := h.sent c hc hsame
    exact ⟨w, hw.mono hwire (List.Subset.refl _)⟩
  · intro c hc
    obtain ⟨hold, hphase⟩ := hcalling c hc
    rw [hphase]
    exact h.calling c hold

theorem append (h : QueueInv u calling kind q) {item : ReliableItem}
    (hfresh : ∀ e ∈ q.log, e.2.id ≠ item.id) (fault : Option Wal.AppendFault) :
    QueueInv u calling kind (q.append item fault).1 := by
  have hlog : ∃ extra, (q.append item fault).1.log = q.log ++ extra ∧
      (extra.map fun e => e.2.id) <+: [item.id] := by
    simp only [Queue.append]
    split
    · exact ⟨_, rfl, List.prefix_refl _⟩
    · exact ⟨[], by simp, List.nil_prefix⟩
  obtain ⟨extra, hlog, hextra⟩ := hlog
  have hgrows : q.log <+: (q.append item fault).1.log := hlog ▸ List.prefix_append _ _
  refine h.grow (q.append item fault).1 hgrows ?_ rfl h.ofKind fun c hc => ⟨hc, rfl⟩
  unfold DistinctIds
  rw [hlog, List.map_append]
  refine List.nodup_append.mpr ⟨h.ids, hextra.sublist.nodup (List.nodup_singleton _), ?_⟩
  intro id hid id' hid' heq
  obtain ⟨e, he, rfl⟩ := List.mem_map.mp hid
  exact hfresh e he (heq.trans (List.mem_singleton.mp (hextra.subset hid')))

theorem idle (h : QueueInv u calling kind q) (hlog : q'.log = q.log)
    (haccepted : q'.accepted = q.accepted)
    (hkind : ∀ batch next, q'.phase = .sending batch next → batch.kind = kind) :
    QueueInv u none kind q' := by
  have hids : DistinctIds q' := by
    unfold DistinctIds
    rw [hlog]
    exact h.ids
  exact h.grow q' (hlog ▸ List.prefix_refl _) hids haccepted hkind (by simp)

theorem rests (h : QueueInv u calling kind q) (hlog : q'.log = q.log)
    (haccepted : q'.accepted = q.accepted)
    (hphase : ∀ batch next, q'.phase ≠ .sending batch next) : QueueInv u none kind q' :=
  h.idle hlog haccepted fun batch next hsending => absurd hsending (hphase batch next)

/-- What holds of a loop in a call holds without the call. -/
theorem forget (h : QueueInv u calling kind q) : QueueInv u none kind q :=
  { h with calling := by simp }

theorem calling_eq_none (h : QueueInv u calling kind q)
    (hphase : ∀ batch next, q.phase ≠ .sending batch next) : calling = none := by
  cases calling with
  | none => rfl
  | some c =>
      obtain ⟨-, batch, next, hsending, -⟩ := h.calling c rfl
      exact absurd hsending (hphase batch next)

theorem loop (h : QueueInv u calling kind q) {batchSize : Nat} {e : LoopEvent}
    (hevent : ∀ ok, e ≠ .sendReliable ok) (hstep : q.step kind batchSize e = some q') :
    QueueInv u calling kind q' := by
  cases e with
  | sendReliable ok => exact absurd rfl (hevent ok)
  | readFrom assetId now ok =>
      cases hp : q.phase <;> simp only [Queue.step, hp, Option.some.injEq, reduceCtorEq] at hstep
      have hnone : calling = none := h.calling_eq_none (by simp [hp])
      subst hstep hnone
      cases ok with
      | false => exact h
      | true =>
          simp only [if_true, Queue.read]
          split
          · exact h
          · apply h.idle
            · rfl
            · rfl
            · intro batch next hphase
              cases hphase
              rfl
  | saveCursor ok =>
      cases hp : q.phase <;> simp only [Queue.step, hp, Option.some.injEq, reduceCtorEq] at hstep
      have hnone : calling = none := h.calling_eq_none (by simp [hp])
      subst hstep hnone
      exact h.rests rfl rfl (by simp)

theorem restart (h : QueueInv u calling kind q) (maxBytes : Int) (readable : Bool) :
    QueueInv u none kind (q.restart maxBytes readable) :=
  h.rests rfl rfl (by simp [Queue.restart])

/-- The loop gets its answer; a nil says that the batch is stored. -/
theorem answered (h : QueueInv u calling kind q) {batchSize : Nat} {ok : Bool}
    (hstep : q.step kind batchSize (.sendReliable ok) = some q')
    (hok : ok = true → ∀ batch next, q.phase = .sending batch next →
      ∀ it ∈ batch.items, wireItem it ∈ u.recorded kind) : QueueInv u none kind q' := by
  cases hp : q.phase <;> simp only [Queue.step, hp, reduceCtorEq] at hstep
  rename_i batch next
  cases ok with
  | false =>
      cases hstep
      exact h.rests rfl rfl (by simp)
  | true =>
      cases hstep
      refine ⟨h.ids, by simp, ?_, h.sent, h.order, by simp⟩
      intro d hd
      cases List.mem_append.mp hd with
      | inl hold => exact h.stored d hold
      | inr hnew =>
          rw [List.mem_singleton.mp hnew]
          exact hok rfl batch next hp

/-! ## Steps of the uplink -/

/-- The sink records a part of a report that was on its way. -/
theorem record (h : QueueInv u calling kind q) {u' : Reports} (hnext : u'.next = u.next)
    (hbatch : u'.batch = u.batch) {b : Uplink.ReliableBatch} {n : Nat}
    (hb : b ∈ u.submitted ∨ n = 0)
    (hpersisted : u'.persisted = u.persisted ++
      (b.items.take n).map (Uplink.reportKindName b.report.kind, ·)) :
    QueueInv u' calling kind q := by
  have hrecorded := Reports.recorded_append hpersisted kind
  have hgrow : u.recorded kind ⊆ u'.recorded kind := by
    rw [hrecorded]
    exact List.subset_append_left _ _
  refine ⟨h.ids, h.ofKind, fun d hd it hit => hgrow (h.stored d hd it hit), ?_, ?_, ?_⟩
  · intro c hc hsame
    rw [hnext] at hc
    rw [hbatch] at hsame ⊢
    obtain ⟨w, hw⟩ := h.sent c hc hsame
    exact ⟨w, hw.mono (List.prefix_refl _) hgrow⟩
  · rw [hrecorded]
    split
    next hkind =>
      rcases hb with ⟨c, hc, rfl⟩ | rfl
      case inr => simpa using h.order
      obtain ⟨w, hw⟩ := h.sent c hc hkind.symm
      rw [hw.items]
      exact prefix_append_part h.ids.nodup h.order hw.past n
    next =>
      rw [List.append_nil]
      exact h.order
  · rw [hnext, hbatch]
    exact h.calling

theorem same (h : QueueInv u calling kind q) {u' : Reports} (hnext : u'.next = u.next)
    (hbatch : u'.batch = u.batch) (hpersisted : u'.persisted = u.persisted) :
    QueueInv u' calling kind q :=
  @record u calling kind q h u' hnext hbatch ⟨kind, []⟩ 0 (Or.inr rfl) (by simp [hpersisted])

theorem register (h : QueueInv u calling kind q) {u' : Reports} {b : Uplink.ReliableBatch}
    (hnext : u'.next = u.next + 1) (hbatch : u'.batch = Function.update u.batch u.next b)
    (hpersisted : u'.persisted = u.persisted)
    (hsent : b.kind = kind → ∃ w, Ordered (wireLog q) (u.recorded kind) b.items w)
    {calling' : Option Nat}
    (hcalling : ∀ c, calling' = some c → calling = some c ∨ c = u.next ∧
      ∃ batch next, q.phase = .sending batch next ∧ b = wireBatch batch) :
    QueueInv u' calling' kind q := by
  have hrecorded : u'.recorded kind = u.recorded kind := by
    unfold Reports.recorded
    rw [hpersisted]
  have hold : ∀ c, c < u.next → u'.batch c = u.batch c := fun c hc => by
    rw [hbatch, Function.update_of_ne (Nat.ne_of_lt hc)]
  have hnew : u'.batch u.next = b := by rw [hbatch, Function.update_self]
  refine ⟨h.ids, h.ofKind, ?_, ?_, ?_, ?_⟩
  · rw [hrecorded]
    exact h.stored
  · intro c hc hsame
    rw [hrecorded]
    by_cases hlast : c = u.next
    · subst hlast
      rw [hnew] at hsame ⊢
      exact hsent hsame
    · have hlt : c < u.next := by omega
      rw [hold c hlt] at hsame ⊢
      exact h.sent c hlt hsame
  · rw [hrecorded]
    exact h.order
  · intro c hc
    cases hcalling c hc with
    | inl hcall =>
        obtain ⟨hlt, hphase⟩ := h.calling c hcall
        rw [hold c hlt]
        exact ⟨by omega, hphase⟩
    | inr hcall =>
        obtain ⟨rfl, batch, next, hphase, rfl⟩ := hcall
        exact ⟨by omega, batch, next, hphase, hnew⟩

end QueueInv

/-- The batch a loop has read starts where everything before it is recorded. -/
theorem Pipeline.Inv.batch_ordered {p : Pipeline} (h : p.Inv) {kind : QueueKind} {q : Queue}
    (hq : p.reporter.queues kind = some q) {batch : ReliableBatch} {next : Wal.WalCursor}
    (hphase : q.phase = .sending batch next) :
    ∃ w, Ordered (wireLog q) (p.uplink.recorded kind) (wireBatch batch).items w := by
  obtain ⟨j, s, hrun, href⟩ := h.replays kind q hq
  obtain ⟨reached, hinv⟩ := inv_of_run hrun
  have hrefines := href.phase
  rw [hphase] at hrefines
  obtain ⟨upTo, hflight, -, hitems⟩ := hrefines
  obtain ⟨hlow, hhigh⟩ := hinv.inFlight_le upTo hflight
  rw [href.log] at hitems hhigh
  have hlength : (wireLog q).length = q.log.length := List.length_map _
  refine ⟨(s.position, upTo), hlength ▸ hhigh, ?_, hlength ▸ Nat.le_trans hlow hhigh, ?_⟩
  · simp only [wireBatch, hitems, wireLog, window, List.map_drop, List.map_take, List.map_map]
    rfl
  · intro x hx
    rw [wireLog, ← List.map_take] at hx
    obtain ⟨e, he, rfl⟩ := List.mem_map.mp hx
    obtain ⟨d, hd, hit⟩ := passed_delivered href hrun he
    exact (h.queues kind q hq).stored d hd e.2 hit

/-! ## Steps of the pipeline -/

theorem isSome_queues_step {r r' : Reporter} {e : Reporter.Event} (hstep : r.step e = some r')
    {kind : QueueKind} (h : (r.queues kind).isSome) : (r'.queues kind).isSome := by
  have hupdate : ∀ (kind' : QueueKind) (q : Queue),
      (Function.update r.queues kind' (some q) kind).isSome := by
    intro kind' q
    by_cases hkind : kind = kind'
    · rw [hkind, Function.update_self, Option.isSome_some]
    · rwa [Function.update_of_ne hkind]
  cases e with
  | submitReliable kind' id payload now fault =>
      cases hstep
      unfold submitReliable
      split
      · exact h
      · split
        · exact h
        · exact hupdate kind' _
  | loop kind' event =>
      simp only [Reporter.step] at hstep
      split at hstep
      · cases hstep
      · obtain ⟨q', -, rfl⟩ := Option.map_eq_some_iff.mp hstep
        exact hupdate kind' q'
  | restart maxBytes batchSize readable =>
      cases hstep
      rwa [Option.isSome_map]

namespace Pipeline.Inv

variable {p : Pipeline}

/-- Two items of one kind under one id are the same record. -/
theorem idsIdentify (h : p.Inv) {kind : QueueKind} {q : Queue}
    (hq : p.reporter.queues kind = some q) {batch : ReliableBatch} {next : Wal.WalCursor}
    (hphase : q.phase = .sending batch next) :
    Reports.IdsIdentify (insert (wireBatch batch) p.uplink.submitted) := by
  have hkind : (wireBatch batch).kind = kind := (h.queues kind q hq).ofKind batch next hphase
  -- every batch of a kind consists of records of the one queue of that kind
  have hrecords : ∀ b ∈ insert (wireBatch batch) p.uplink.submitted,
      ∃ q, p.reporter.queues b.kind = some q ∧ b.items ⊆ wireLog q := by
    have hwindow : ∀ {log recorded items w}, Ordered log recorded items w → items ⊆ log := by
      intro log recorded items w hw it hit
      rw [hw.items] at hit
      exact List.mem_of_mem_take (List.mem_of_mem_drop hit)
    intro b hb
    cases hb with
    | inl hnew =>
        subst hnew
        obtain ⟨w, hw⟩ := h.batch_ordered hq hphase
        exact ⟨q, hkind ▸ hq, hwindow hw⟩
    | inr hold =>
        obtain ⟨c, hc, rfl⟩ := hold
        obtain ⟨q', hq'⟩ := Option.isSome_iff_exists.mp (h.known c hc)
        obtain ⟨w, hw⟩ := (h.queues _ q' hq').sent c hc rfl
        exact ⟨q', hq', hwindow hw⟩
  apply Reports.idsIdentify_of_inj
  intro b hb b' hb' hsame it hit it' hit' hid
  obtain ⟨q₁, hq₁, hsub⟩ := hrecords b hb
  obtain ⟨q₂, hq₂, hsub'⟩ := hrecords b' hb'
  rw [hsame, hq₁] at hq₂
  cases hq₂
  exact List.inj_on_of_nodup_map (h.queues _ q₁ hq₁).ids.wire (hsub' hit') (hsub hit) hid

theorem report (h : p.Inv) {e : Reporter.Event} {r : Reporter} (hmay : p.reporter.Undisturbed e)
    (hstep : p.reporter.step e = some r)
    (hqueues : ∀ kind q, r.queues kind = some q →
      QueueInv p.uplink (p.calling kind) kind q) : Inv { p with reporter := r } :=
  ⟨h.replays.step hmay hstep, h.sound, hqueues,
    fun c hc => isSome_queues_step hstep (h.known c hc)⟩

theorem submitReliable (h : p.Inv) {kind : QueueKind} {id : String} {payload : Option String}
    {now : Int} {fault : Option Wal.AppendFault} {r : Reporter}
    (hmay : p.Regular (.submitReliable kind id payload now fault))
    (hstep : p.reporter.step (.submitReliable kind id payload now fault) = some r) :
    Inv { p with reporter := r } := by
  apply h.report hmay.1 hstep
  refine @queues_step (fun kind q => QueueInv p.uplink (p.calling kind) kind q) _ _ _ hstep
    h.queues ?_ ?_ ?_
  · intro kind' id' raw now' fault' heq q hq
    cases heq
    exact (h.queues _ q hq).append (hmay.2 q hq) _
  · intro kind' event heq
    cases heq
  · intro maxBytes batchSize readable heq
    cases heq

theorem loop (h : p.Inv) {kind : QueueKind} {event : LoopEvent} {r : Reporter}
    (hevent : ∀ ok, event ≠ .sendReliable ok)
    (hstep : p.reporter.step (.loop kind event) = some r) : Inv { p with reporter := r } := by
  have hmay : p.reporter.Undisturbed (.loop kind event) := trivial
  apply h.report hmay hstep
  refine @queues_step (fun kind q => QueueInv p.uplink (p.calling kind) kind q) _ _ _ hstep
    h.queues ?_ ?_ ?_
  · intro kind' id' raw now' fault' heq
    cases heq
  · intro kind' event' heq q hq q' hq'
    cases heq
    exact (h.queues _ q hq).loop hevent hq'
  · intro maxBytes batchSize readable heq
    cases heq

theorem sendReliable (h : p.Inv) {kind : QueueKind} {q : Queue} {batch : ReliableBatch}
    {next : Wal.WalCursor} {u : Reports} (hq : p.reporter.queues kind = some q)
    (hphase : q.phase = .sending batch next)
    (hstep : p.uplink.step (.register (wireBatch batch)) = some u) :
    Inv { p with
      uplink := u
      calling := Function.update p.calling kind (some p.uplink.next) } := by
  have hkind : (wireBatch batch).kind = kind := (h.queues kind q hq).ofKind batch next hphase
  have hmay : p.uplink.KeepsIds (.register (wireBatch batch)) := h.idsIdentify hq hphase
  have hsound := h.sound.step hmay hstep
  cases Reports.performs_of_step hstep
  refine ⟨h.replays, hsound, ?_, ?_⟩
  · intro kind' q' hq'
    apply (h.queues kind' q' hq').register
    · rfl
    · rfl
    · rfl
    · intro hsame
      rw [hkind] at hsame
      subst hsame
      rw [hq] at hq'
      cases hq'
      exact h.batch_ordered hq hphase
    · intro c hc
      cases Handoff.update_cases hc with
      | inr hold => exact Or.inl hold.2
      | inl hnew =>
          obtain ⟨rfl, hcall⟩ := hnew
          rw [hq] at hq'
          cases hq'
          exact Or.inr ⟨(Option.some.inj hcall).symm, batch, next, hphase, rfl⟩
  · intro c hc
    by_cases hlast : c = p.uplink.next
    · subst hlast
      simp only [Function.update_self, hkind, hq, Option.isSome_some]
    · simp only [Function.update_of_ne hlast]
      exact h.known c (by simp only at hc; omega)

theorem uplink (h : p.Inv) {e : Reports.Event} {u : Reports} (hevent : ∀ b, e ≠ .register b)
    (hstep : p.uplink.step e = some u) : Inv { p with uplink := u } := by
  have hmay : p.uplink.KeepsIds e := by
    cases e with
    | register b => exact absurd rfl (hevent b)
    | _ => trivial
  obtain ⟨hnext, hbatch, hpersisted⟩ := (Reports.performs_of_step hstep).keeps_calls hevent
  refine ⟨h.replays, h.sound.step hmay hstep, ?_, ?_⟩
  · intro kind q hq
    cases hpersisted with
    | inl hnone => exact (h.queues kind q hq).same hnext hbatch hnone
    | inr hsome =>
        obtain ⟨σ, r, hr, n, hmore⟩ := hsome
        obtain ⟨b, hb, rfl⟩ := h.sound.frames σ r hr
        exact (h.queues kind q hq).record hnext hbatch (Or.inl hb) hmore
  · intro c hc
    simp only [hnext, hbatch] at hc ⊢
    exact h.known c hc

theorem answered (h : p.Inv) {kind : QueueKind} {c : Nat} {outcome : Uplink.Outcome}
    {r : Reporter} (hcall : p.calling kind = some c)
    (hphase : p.uplink.phase c = .returned outcome)
    (hstep : p.reporter.step (.loop kind (.sendReliable (outcome = .received .ok))) = some r) :
    Inv { p with
      reporter := r
      calling := Function.update p.calling kind none } := by
  have hmay : p.reporter.Undisturbed (.loop kind (.sendReliable (outcome = .received .ok))) :=
    trivial
  refine ⟨h.replays.step hmay hstep, h.sound, ?_,
    fun c hc => isSome_queues_step hstep (h.known c hc)⟩
  refine @queues_step
    (fun kind' q => QueueInv p.uplink (Function.update p.calling kind none kind') kind' q)
    _ _ _ hstep ?_ ?_ ?_ ?_
  · intro kind' q hq
    by_cases hkind : kind' = kind
    · rw [hkind, Function.update_self]
      exact (hkind ▸ h.queues kind' q hq).forget
    · rw [Function.update_of_ne hkind]
      exact h.queues kind' q hq
  · intro kind' id' raw now' fault' heq
    cases heq
  · intro kind' event heq q hq q' hq'
    cases heq
    rw [Function.update_self]
    refine (h.queues kind q hq).answered hq' ?_
    intro hok batch next hsending it hit
    -- the call has the batch the loop is sending, and its nil means that the batch is stored
    obtain ⟨-, batch', next', hsending', hbatch⟩ := (h.queues kind q hq).calling c hcall
    rw [hsending] at hsending'
    cases hsending'
    have hstored := h.sound.sound (hphase.trans (congrArg _ (of_decide_eq_true hok)))
    rw [hbatch] at hstored
    have hkind : batch.kind = kind := (h.queues kind q hq).ofKind batch next hsending
    rw [← hkind]
    exact Reports.mem_recorded.mpr (hstored (wireItem it) (List.mem_map_of_mem hit))
  · intro maxBytes batchSize readable heq
    cases heq

theorem restart (h : p.Inv) {maxBytes : Int} {batchSize : Nat} {readable : QueueKind → Bool}
    {r : Reporter} (hstep : p.reporter.step (.restart maxBytes batchSize readable) = some r) :
    Inv ⟨r, p.uplink.restart, fun _ => none⟩ := by
  have hmay : p.reporter.Undisturbed (.restart maxBytes batchSize readable) := trivial
  refine ⟨h.replays.step hmay hstep, h.sound.restart, ?_,
    fun c hc => isSome_queues_step hstep (h.known c hc)⟩
  have hsame : ∀ kind q, p.reporter.queues kind = some q →
      QueueInv p.uplink.restart none kind q := fun kind q hq =>
    (h.queues kind q hq).forget.same rfl rfl rfl
  refine @queues_step (fun kind q => QueueInv p.uplink.restart none kind q) _ _ _ hstep hsame
    ?_ ?_ ?_
  · intro kind' id' raw now' fault' heq
    cases heq
  · intro kind' event heq
    cases heq
  · intro maxBytes' batchSize' readable' heq kind q hq
    cases heq
    exact (hsame kind q hq).restart maxBytes (readable kind)

theorem step (h : p.Inv) {t : Pipeline} {e : Event} (hmay : p.Regular e)
    (hstep : p.step e = some t) : t.Inv := by
  cases does_of_step hstep with
  | submitReliable hreport => exact h.submitReliable hmay hreport
  | loop hevent hreport => exact h.loop hevent hreport
  | sendReliable _ hq hphase hregister => exact h.sendReliable hq hphase hregister
  | uplink hevent huplink => exact h.uplink hevent huplink
  | answered hcall hphase hreport => exact h.answered hcall hphase hreport
  | restart hreport => exact h.restart hreport

end Pipeline.Inv

theorem Pipeline.new_inv {dirs : QueueKind → Wal.Dir}
    (hdirs : ∀ kind, Wal.segments (dirs kind) = []) (walEnabled : Bool) (maxBytes : Int)
    (batchSize : Nat) : (new walEnabled maxBytes batchSize dirs).Inv := by
  refine ⟨new_allReplay hdirs walEnabled maxBytes batchSize, Reports.init_soundInv, ?_,
    fun c hc => absurd hc (Nat.not_lt_zero c)⟩
  intro kind q hq
  simp only [Pipeline.new, Reporter.new, Option.ite_none_right_eq_some, Option.some.injEq] at hq
  obtain ⟨-, rfl⟩ := hq
  constructor
  case ids => exact List.nodup_nil
  case ofKind => intro _ _ hphase; cases hphase
  case stored => intro d hd; cases hd
  case sent => exact fun c hc => absurd hc (Nat.not_lt_zero c)
  case order => exact List.prefix_refl _
  case calling => intro c hc; cases hc

theorem Pipeline.inv_of_run {dirs : QueueKind → Wal.Dir}
    (hdirs : ∀ kind, Wal.segments (dirs kind) = []) {walEnabled : Bool} {maxBytes : Int}
    {batchSize : Nat} {p : Pipeline}
    (run : Reaches (Fires step Regular) (new walEnabled maxBytes batchSize dirs) p) : p.Inv := by
  refine Execution.invariant Inv ?_ (new_inv hdirs walEnabled maxBytes batchSize) run
  intro s t hs hfires
  obtain ⟨e, hmay, hstep⟩ := hfires
  exact hs.step hmay hstep

/-- The agent starts on fresh directories and runs, with its uplink and the gateway, in any
interleaving of submissions, loop iterations, calls, sessions that break, acknowledgements that
are late or lost, sinks that refuse, failed cursor saves and restarts; no write is torn, the
quota deletes nothing, and every submission has an id of its own.  In every state reached, an
item whose `SubmitReliable` returned nil is in the gateway's sink, or at or after the cursor on
disk, so that a restart reads it again.  What the sink has recorded of a kind, without
repetitions, is the beginning of the log of that kind. -/
theorem reliable_end_to_end {dirs : QueueKind → Wal.Dir}
    (hdirs : ∀ kind, Wal.segments (dirs kind) = []) {walEnabled : Bool} {maxBytes : Int}
    {batchSize : Nat} {p : Pipeline}
    (run : Reaches (Fires Pipeline.step Pipeline.Regular)
      (Pipeline.new walEnabled maxBytes batchSize dirs) p)
    {kind : QueueKind} {q : Queue} (hq : p.reporter.queues kind = some q) :
    (∀ e ∈ q.confirmed, wireItem e.2 ∈ p.uplink.recorded kind ∨
      q.persisted.AtOrBefore e.1 ∧
        ∀ maxBytes out, Wal.Drains (Wal.openWal q.wal.dir maxBytes).dir q.persisted out →
          marshalItem e.2 ∈ out) ∧
    (p.uplink.recorded kind).eraseDups <+: wireLog q ∧ q.confirmed.Sublist q.log := by
  have hinv := Pipeline.inv_of_run hdirs run
  obtain ⟨j, s, hrun, href⟩ := hinv.replays kind q hq
  have hqueue := hinv.queues kind q hq
  refine ⟨fun e he => ?_, hqueue.order, href.confirmed⟩
  refine (href.delivered_or_ahead hrun (href.confirmed.subset he)).imp_left ?_
  rintro ⟨d, hd, hcopy⟩
  apply hqueue.stored d hd
  rw [← href.copies_items hd]
  exact List.mem_map_of_mem hcopy

/-- A result is recorded, but the process dies before it reads the acknowledgement.  The
next one sends the result again and gets its answer. -/
def lostAckEvents : List Event :=
  [.submitReliable .results "c-1" (some "1") 7 none, .readFrom .results "a" 8 true,
    .sendReliable .results, .uplink (.enqueue 0), .uplink (.take 0), .uplink (.sent 0),
    .uplink (.serve 0 1), .restart 0 10 (fun _ => true),
    .readFrom .results "a" 9 true, .sendReliable .results, .uplink (.enqueue 1),
    .uplink (.take 1), .uplink (.sent 1), .uplink (.serve 1 1), .uplink (.recvAck 1),
    .uplink (.receive 1), .answered .results, .saveCursor .results true]

theorem permitted_lostAckEvents :
    Permitted Pipeline.step Pipeline.Regular (Pipeline.new true 0 10 fun _ => ∅)
      lostAckEvents := by
  have hrest : ∀ e ∈ lostAckEvents.tail, ∀ p, Pipeline.Regular p e := by
    simp [lostAckEvents, Pipeline.Regular]
  refine ⟨⟨permitted_resendEvents.1, ?_⟩, fun p _ => permitted_of_forall hrest p⟩
  intro q hq e he
  have hstart : Queue.start ∅ 0 = q := by simpa [Pipeline.new, Reporter.new] using hq
  subst hstart
  cases he

theorem reliable_end_to_end_lost_ack :
    ∃ p q, Reaches (Fires Pipeline.step Pipeline.Regular)
        (Pipeline.new true 0 10 fun _ => ∅) p ∧ p.reporter.queues .results = some q ∧
      q.confirmed.length = 1 ∧ (p.uplink.recorded .results).length = 2 ∧
      ((∀ e ∈ q.confirmed, wireItem e.2 ∈ p.uplink.recorded .results ∨
        q.persisted.AtOrBefore e.1 ∧
          ∀ maxBytes out, Wal.Drains (Wal.openWal q.wal.dir maxBytes).dir q.persisted out →
            marshalItem e.2 ∈ out) ∧
      (p.uplink.recorded .results).eraseDups <+: wireLog q ∧ q.confirmed.Sublist q.log) := by
  obtain ⟨p, run, hend⟩ := reaches_of_any Pipeline.step lostAckEvents
    (fun p => (p.reporter.queues .results).map
      (fun q => (q.confirmed.length, (p.uplink.recorded .results).length)) = some (1, 2))
    permitted_lostAckEvents (by decide +kernel)
  obtain ⟨q, hq, hlengths⟩ := Option.map_eq_some_iff.mp hend
  rw [Prod.mk.injEq] at hlengths
  exact ⟨p, q, run, hq, hlengths.1, hlengths.2, reliable_end_to_end (fun _ => by decide) run hq⟩

end TomAgent.Delivery
