import TomAgent.Core.Replay
import TomAgent.Reporter.Queue
import TomAgent.Wal.Tail

/-!
# At least once, in order

Each queue refines a replay from a saved position: its log is the list of items
that reached the files, and the cursor in memory, the one on disk and the ones
batches were read from stand for positions in that list.  What holds of every
replay then holds of every queue.
-/

namespace TomAgent.Reporter

open Wal Journal Segmented Execution Replay
open Uplink (QueueKind)

def stored (e : WalCursor × ReliableItem) : WalCursor × Bytes := (e.1, marshalItem e.2)

theorem stored_injective : Function.Injective stored := by
  intro a b h
  simp only [stored, Prod.mk.injEq] at h
  have hitem := congrArg unmarshalItem h.2
  rw [unmarshalItem_marshalItem, unmarshalItem_marshalItem, Option.some.injEq] at hitem
  exact Prod.ext h.1 hitem

theorem zip_take {α β : Type} (xs : List (α × β)) (n : Nat) :
    (xs.map Prod.fst).zip ((xs.map Prod.snd).take n) = xs.take n := by
  induction xs generalizing n with
  | nil => simp
  | cons x xs ih =>
      cases n with
      | zero => simp
      | succ n => simp [ih]

theorem forall₂_mem {α β : Type} {R : α → β → Prop} {xs : List α} {ys : List β}
    (h : List.Forall₂ R xs ys) {x : α} (hx : x ∈ xs) : ∃ y ∈ ys, R x y := by
  induction h with
  | nil => simp at hx
  | cons hab _ ih =>
      rcases List.mem_cons.mp hx with rfl | hx
      · exact ⟨_, List.mem_cons_self, hab⟩
      · obtain ⟨y, hy, hxy⟩ := ih hx
        exact ⟨y, List.mem_cons_of_mem _ hy, hxy⟩

/-! ## The refinement -/

/-- The delivery consists of the items of a window of the log. -/
structure Delivered (j : Journal) (log : List (WalCursor × ReliableItem)) (d : Delivery)
    (w : Nat × Nat) : Prop where
  start : Stands j d.start w.1
  upTo : w.2 ≤ log.length
  items : d.batch.items = (window log w).map Prod.snd

def PhaseRefines (j : Journal) (s : State (WalCursor × ReliableItem)) : Phase → Prop
  | .reading | .saving => s.inFlight = none
  | .sending batch next => ∃ upTo, s.inFlight = some upTo ∧ Stands j next upTo ∧
      batch.items = (window s.log (s.position, upTo)).map Prod.snd

structure Queue.Refines (q : Queue) (j : Journal) (s : State (WalCursor × ReliableItem)) :
    Prop where
  keeps : q.wal.Keeps j (q.log.map stored)
  confirmed : q.confirmed.Sublist q.log
  log : s.log = q.log
  cursor : Stands j q.cursor s.position
  persisted : Stands j q.persisted s.saved
  phase : PhaseRefines j s q.phase
  accepted : List.Forall₂ (Delivered j q.log) q.accepted s.accepted

namespace Queue.Refines

variable {q : Queue} {j k : Journal} {s : State (WalCursor × ReliableItem)}

theorem le_length (h : q.Refines j s) {cur : WalCursor} {n : Nat} (hcur : Stands j cur n) :
    n ≤ q.log.length := by
  have hle := hcur.le
  rwa [h.keeps.length_records, List.length_map] at hle

theorem filter_log (h : q.Refines j s) {cur : WalCursor} {n : Nat} (hcur : Stands j cur n) :
    q.log.filter (fun e => cur.AtOrBefore e.1) = q.log.drop n := by
  have hfilter := h.keeps.filter_log hcur
  rw [List.filter_map, ← List.map_drop] at hfilter
  exact stored_injective.list_map hfilter

/-- The place of a delivered item is the place of its record. -/
theorem copies_eq (h : q.Refines j s) {d : Delivery} {w : Nat × Nat}
    (hd : Delivered j q.log d w) : q.copies d = window q.log w := by
  have hwindow : window q.log w = (q.log.drop w.1).take (w.2 - w.1) := by
    rw [window, List.drop_take]
  rw [Queue.copies, h.filter_log hd.start, hd.items, hwindow, List.map_take, zip_take]

end Queue.Refines

/-! ## Growing logs -/

theorem Delivered.grow {j k : Journal} {log extra : List (WalCursor × ReliableItem)}
    {d : Delivery} {w : Nat × Nat} (h : Delivered j log d w)
    (hstands : ∀ cur n, Stands j cur n → Stands k cur n) : Delivered k (log ++ extra) d w := by
  have hupTo := h.upTo
  refine ⟨hstands _ _ h.start, ?_, ?_⟩
  · rw [List.length_append]
    omega
  · rw [window_append log extra h.upTo]
    exact h.items

/-- Records at the end of the log and new segments leave everything else as it is. -/
theorem Queue.Refines.grow {q : Queue} {j k : Journal} {s : State (WalCursor × ReliableItem)}
    (h : q.Refines j s) {w : WAL} {extra confirmed : List (WalCursor × ReliableItem)}
    (hkeeps : w.Keeps k ((q.log ++ extra).map stored))
    (hconfirmed : confirmed.Sublist (q.log ++ extra))
    (hstands : ∀ cur n, Stands j cur n → Stands k cur n) :
    Queue.Refines { q with wal := w, log := q.log ++ extra, confirmed := confirmed } k
      { s with log := s.log ++ extra } where
  keeps := hkeeps
  confirmed := hconfirmed
  log := by simp only [h.log]
  cursor := hstands _ _ h.cursor
  persisted := hstands _ _ h.persisted
  accepted := h.accepted.imp fun _ _ hd => hd.grow hstands
  phase := by
    have hphase := h.phase
    cases hp : q.phase with
    | reading =>
        rw [hp] at hphase
        exact hphase
    | saving =>
        rw [hp] at hphase
        exact hphase
    | sending batch next =>
        rw [hp] at hphase
        obtain ⟨upTo, hflight, hnext, hitems⟩ := hphase
        refine ⟨upTo, hflight, hstands _ _ hnext, ?_⟩
        rw [window_append s.log extra (h.log ▸ h.le_length hnext)]
        exact hitems

theorem Queue.Refines.reopen {q : Queue} {j k : Journal} {s : State (WalCursor × ReliableItem)}
    (h : q.Refines j s) {w : WAL} (hkeeps : w.Keeps k (q.log.map stored))
    (hstands : ∀ cur n, Stands j cur n → Stands k cur n) :
    Queue.Refines { q with wal := w } k s := by
  rw [← List.append_nil q.log] at hkeeps
  have hconfirmed : q.confirmed.Sublist (q.log ++ []) := by simpa using h.confirmed
  simpa using h.grow hkeeps hconfirmed hstands

theorem Queue.Refines.append {q : Queue} {j : Journal} {s : State (WalCursor × ReliableItem)}
    (h : q.Refines j s) (item : ReliableItem) {fault : Option AppendFault}
    (hheader : ∀ n, fault ≠ some (.writeHeader n))
    (hpayload : ∀ n, fault ≠ some (.writePayload n))
    (hkept : ∀ id ∈ segments q.wal.dir, id ∈ segments (q.append item fault).1.wal.dir) :
    ∃ k t, Reaches Step s t ∧ (q.append item fault).1.Refines k t := by
  obtain ⟨k, hkeeps, hstands⟩ := h.keeps.append (marshalItem item) hheader hpayload hkept
  simp only [Queue.append]
  generalize q.wal.append (marshalItem item) fault = done at hkeeps ⊢
  by_cases hrecorded : Recorded done.2
  · rw [if_pos hrecorded] at hkeeps
    simp only [hrecorded, if_true]
    generalize hentry : (done.1.lastPlace (marshalItem item), item) = entry
    have hall : q.log.map stored ++ [(done.1.lastPlace (marshalItem item), marshalItem item)] =
        (q.log ++ [entry]).map stored := by
      rw [List.map_append, ← hentry]
      rfl
    rw [hall] at hkeeps
    have hnew : entry ∉ s.log := by
      have hnodup := hkeeps.nodup.of_map
      rw [h.log]
      intro hmem
      exact (List.nodup_append.mp hnodup).2.2 entry hmem entry (by simp) rfl
    refine ⟨k, _, .single (.append s entry hnew), h.grow hkeeps ?_ hstands⟩
    split
    · exact h.confirmed.append_right [entry]
    · exact h.confirmed.trans (List.sublist_append_left _ _)
  · have herr : done.2 ≠ none := by
      intro hnone
      rw [hnone] at hrecorded
      exact hrecorded trivial
    rw [if_neg hrecorded, List.append_nil] at hkeeps
    simp only [hrecorded, herr, if_false]
    exact ⟨k, s, .refl, h.reopen hkeeps hstands⟩

theorem Queue.Refines.restart {q : Queue} {j : Journal} {s : State (WalCursor × ReliableItem)}
    (h : q.Refines j s) (maxBytes : Int) (readable : Bool) :
    ∃ k t, Reaches Step s t ∧ (q.restart maxBytes readable).Refines k t := by
  obtain ⟨k, hkeeps, hne, hstands⟩ := h.keeps.reopen maxBytes
  have hgrown := h.reopen hkeeps hstands
  cases readable with
  | true =>
      refine ⟨k, _, .single (.resume s s.saved (Nat.le_refl _)), ?_⟩
      exact { hgrown with cursor := hgrown.persisted, phase := rfl }
  | false =>
      refine ⟨k, _, .single (.resume s 0 (Nat.zero_le _)), ?_⟩
      exact { hgrown with cursor := stands_zero hne, phase := rfl }

/-! ## The loop -/

theorem filterMap_unmarshalItem (log : List (WalCursor × ReliableItem)) :
    (log.map fun e => marshalItem e.2).filterMap unmarshalItem = log.map Prod.snd := by
  simp [List.filterMap_map]

theorem Queue.Refines.readFrom {q : Queue} {j : Journal} {s : State (WalCursor × ReliableItem)}
    (h : q.Refines j s) {batchSize : Nat} (hmax : 1 ≤ batchSize) :
    (readFrom q.wal.dir q.cursor batchSize).1 =
      ((q.log.drop s.position).take batchSize).map fun e => marshalItem e.2 := by
  rw [(h.keeps.readFrom h.cursor hmax).1, ← List.map_drop, ← List.map_take, List.map_map]
  rfl

theorem Queue.Refines.read {q : Queue} {j : Journal} {s : State (WalCursor × ReliableItem)}
    (h : q.Refines j s) (kind : QueueKind) (batchSize : Nat) (assetId : String) (now : Int) :
    ∃ t, Reaches Step s t ∧ (q.read kind batchSize assetId now).Refines j t := by
  unfold Queue.read
  dsimp only
  by_cases hraws : (Wal.readFrom q.wal.dir q.cursor batchSize).1 = []
  · rw [if_pos hraws]
    exact ⟨s, .refl, h⟩
  · have hmax : 1 ≤ batchSize := by
      rcases Nat.eq_zero_or_pos batchSize with hzero | hpos
      · rw [hzero] at hraws
        exact absurd (readFrom_none _ _) hraws
      · exact hpos
    have hout := h.readFrom hmax
    have hnext := (h.keeps.readFrom h.cursor hmax).2
    rw [if_neg hraws]
    refine ⟨_, .single (.read s _ (Nat.le_add_right _ _) (h.log ▸ h.le_length hnext)),
      { h with phase := ?_ }⟩
    refine ⟨_, rfl, hnext, ?_⟩
    have hwindow : window s.log (s.position,
        s.position + (Wal.readFrom q.wal.dir q.cursor batchSize).1.length) =
          (q.log.drop s.position).take batchSize := by
      rw [window, List.drop_take, Nat.add_sub_cancel_left, hout, h.log]
      simp [List.length_take]
    dsimp only
    rw [hwindow, hout, filterMap_unmarshalItem]

theorem Queue.Refines.step {q q' : Queue} {j : Journal} {s : State (WalCursor × ReliableItem)}
    (h : q.Refines j s) {kind : QueueKind} {batchSize : Nat} {e : LoopEvent}
    (hstep : q.step kind batchSize e = some q') :
    ∃ t, Reaches Step s t ∧ q'.Refines j t := by
  have hphase := h.phase
  cases e with
  | readFrom assetId now ok =>
      cases hp : q.phase <;> simp only [Queue.step, hp, Option.some.injEq, reduceCtorEq] at hstep
      cases ok with
      | true => exact hstep ▸ h.read kind batchSize assetId now
      | false => exact ⟨s, .refl, hstep ▸ h⟩
  | sendReliable ok =>
      cases hp : q.phase <;> simp only [Queue.step, hp, reduceCtorEq] at hstep
      rename_i batch next
      rw [hp] at hphase
      obtain ⟨upTo, hflight, hnext, hitems⟩ := hphase
      cases ok with
      | true =>
          cases hstep
          rw [h.log] at hitems
          refine ⟨_, .single (.accept s upTo hflight), { h with
            cursor := hnext
            phase := rfl
            accepted := ?_ }⟩
          exact List.rel_append h.accepted
            (.cons ⟨h.cursor, h.le_length hnext, hitems⟩ .nil)
      | false =>
          cases hstep
          exact ⟨_, .single (.reject s), { h with phase := rfl }⟩
  | saveCursor ok =>
      cases hp : q.phase <;> simp only [Queue.step, hp, Option.some.injEq, reduceCtorEq] at hstep
      rw [hp] at hphase
      subst hstep
      cases ok with
      | true =>
          refine ⟨_, .single (.save s), { h with persisted := ?_, phase := hphase }⟩
          simpa [Queue.persisted] using h.cursor
      | false => exact ⟨s, .refl, { h with phase := hphase }⟩

/-! ## The reporter -/

def Queue.Replays (q : Queue) : Prop := ∃ j s, Reaches Step State.start s ∧ q.Refines j s

theorem Queue.start_replays {dir : Dir} (hdir : segments dir = []) (maxBytes : Int) :
    (Queue.start dir maxBytes).Replays := by
  obtain ⟨j, hkeeps, hne⟩ := WAL.Keeps.start hdir maxBytes
  exact ⟨j, State.start, .refl, {
    keeps := hkeeps
    confirmed := .slnil
    log := rfl
    cursor := stands_zero hne
    persisted := stands_zero hne
    phase := rfl
    accepted := .nil }⟩

def AllReplay (r : Reporter) : Prop := ∀ kind q, r.queues kind = some q → q.Replays

theorem AllReplay.step {r r' : Reporter} (h : AllReplay r) {e : Event} (hmay : r.Undisturbed e)
    (hstep : r.step e = some r') : AllReplay r' := by
  refine @queues_step (fun _ q => q.Replays) r r' e hstep h ?_ ?_ ?_
  · rintro kind id raw now fault rfl q hq
    obtain ⟨hheader, hpayload, hkept⟩ := hmay
    simp only [Reporter.submitReliable, hq] at hkept
    obtain ⟨j, s, hrun, href⟩ := h kind q hq
    obtain ⟨k, t, hmore, hafter⟩ := href.append ⟨id, kind, now, raw⟩ hheader hpayload
      (hkept q rfl _ (by simp))
    exact ⟨k, t, hrun.trans hmore, hafter⟩
  · rintro kind event rfl q hq q' hq'
    obtain ⟨j, s, hrun, href⟩ := h kind q hq
    obtain ⟨t, hmore, hafter⟩ := href.step hq'
    exact ⟨j, t, hrun.trans hmore, hafter⟩
  · rintro maxBytes batchSize readable rfl kind q hq
    obtain ⟨j, s, hrun, href⟩ := h kind q hq
    obtain ⟨k, t, hmore, hafter⟩ := href.restart maxBytes (readable kind)
    exact ⟨k, t, hrun.trans hmore, hafter⟩

theorem new_allReplay {dirs : QueueKind → Dir} (hdirs : ∀ kind, segments (dirs kind) = [])
    (walEnabled : Bool) (maxBytes : Int) (batchSize : Nat) :
    AllReplay (new walEnabled maxBytes batchSize dirs) := by
  intro kind q hq
  simp only [new, Option.ite_none_right_eq_some, Option.some.injEq] at hq
  exact hq.2 ▸ Queue.start_replays (hdirs kind) maxBytes

theorem reaches_allReplay {dirs : QueueKind → Dir} (hdirs : ∀ kind, segments (dirs kind) = [])
    {walEnabled : Bool} {maxBytes : Int} {batchSize : Nat} {r : Reporter}
    (run : Reaches (Fires step Undisturbed) (new walEnabled maxBytes batchSize dirs) r) :
    AllReplay r := by
  refine invariant AllReplay ?_ (new_allReplay hdirs walEnabled maxBytes batchSize) run
  intro r r' h hfires
  obtain ⟨e, hmay, hstep⟩ := hfires
  exact h.step hmay hstep

/-! ## What a queue delivers -/

namespace Queue.Refines

variable {q : Queue} {j : Journal} {s : State (WalCursor × ReliableItem)}

theorem flatMap_copies (h : q.Refines j s) : q.accepted.flatMap q.copies = s.copies := by
  have hcopies : ∀ {ds : List Delivery} {ws : List (Nat × Nat)},
      List.Forall₂ (Delivered j q.log) ds ws →
        ds.flatMap q.copies = ws.flatMap (window q.log) := by
    intro ds ws hall
    induction hall with
    | nil => rfl
    | cons hd _ ih => rw [List.flatMap_cons, List.flatMap_cons, h.copies_eq hd, ih]
  rw [State.copies, h.log]
  exact hcopies h.accepted

theorem copies_items (h : q.Refines j s) {d : Delivery} (hd : d ∈ q.accepted) :
    (q.copies d).map Prod.snd = d.batch.items := by
  obtain ⟨w, -, hdelivered⟩ := forall₂_mem h.accepted hd
  rw [h.copies_eq hdelivered, hdelivered.items]

/-- An accepted window is the contents of an accepted batch. -/
theorem exists_delivery (h : q.Refines j s) {w : Nat × Nat} (hw : w ∈ s.accepted) :
    ∃ d ∈ q.accepted, q.copies d = window q.log w := by
  have hflip : List.Forall₂ (flip (Delivered j q.log)) s.accepted q.accepted := h.accepted.flip
  obtain ⟨d, hd, hdelivered⟩ := forall₂_mem hflip hw
  exact ⟨d, hd, h.copies_eq hdelivered⟩

/-- An item of the log is in an accepted batch, or it is at or after the cursor on
disk and a restart reads it. -/
theorem delivered_or_ahead (h : q.Refines j s) (hrun : Reaches Step State.start s)
    {e : WalCursor × ReliableItem} (he : e ∈ q.log) :
    (∃ d ∈ q.accepted, e ∈ q.copies d) ∨ q.persisted.AtOrBefore e.1 ∧
      ∀ maxBytes out, Drains (openWal q.wal.dir maxBytes).dir q.persisted out →
        marshalItem e.2 ∈ out := by
  obtain ⟨i, hi, rfl⟩ := List.getElem_of_mem he
  rcases accepted_or_ahead hrun i with ⟨w, hw, hlow, hhigh⟩ | hsaved
  · obtain ⟨d, hd, hcopies⟩ := h.exists_delivery hw
    refine Or.inl ⟨d, hd, ?_⟩
    rw [hcopies]
    exact mem_window hlow hhigh hi
  · have hahead : q.log[i] ∈ q.log.drop s.saved := by
      have hget : (q.log.drop s.saved)[i - s.saved]? = some q.log[i] := by
        rw [List.getElem?_drop, Nat.add_sub_cancel' hsaved, List.getElem?_eq_getElem hi]
      exact List.mem_of_getElem? hget
    have hstored : stored q.log[i] ∈ (q.log.map stored).drop s.saved := by
      rw [← List.map_drop]
      exact List.mem_map_of_mem hahead
    refine Or.inr ⟨?_, fun maxBytes out hout => h.keeps.reread h.persisted hstored hout⟩
    rw [← h.filter_log h.persisted] at hahead
    exact of_decide_eq_true (List.mem_filter.mp hahead).2

end Queue.Refines

/-- The reporter starts on fresh directories and runs with any interleaving of submissions, loop
iterations, answers of the sink, failed cursor saves and restarts, without torn writes and quota
deletions.  In every state reached, an item whose `SubmitReliable` returned nil is in a batch
the sink accepted, or at or after the cursor on disk, so that a restart reads it again.  The
accepted batches without their repetitions are the beginning of the log, which has the items in
the order of the calls. -/
theorem at_least_once {dirs : QueueKind → Dir} (hdirs : ∀ kind, segments (dirs kind) = [])
    {walEnabled : Bool} {maxBytes : Int} {batchSize : Nat} {r : Reporter}
    (run : Reaches (Fires step Undisturbed) (new walEnabled maxBytes batchSize dirs) r)
    {kind : QueueKind} {q : Queue} (hq : r.queues kind = some q) :
    (∀ e ∈ q.confirmed, (∃ d ∈ q.accepted, e ∈ q.copies d) ∨
      q.persisted.AtOrBefore e.1 ∧
        ∀ maxBytes out, Drains (openWal q.wal.dir maxBytes).dir q.persisted out →
          marshalItem e.2 ∈ out) ∧
    (∀ d ∈ q.accepted, (q.copies d).map Prod.snd = d.batch.items) ∧
    (q.accepted.flatMap q.copies).eraseDups <+: q.log ∧ q.confirmed.Sublist q.log := by
  obtain ⟨j, s, hrun, h⟩ := reaches_allReplay hdirs run kind q hq
  refine ⟨fun e he => h.delivered_or_ahead hrun (h.confirmed.subset he),
    fun d hd => h.copies_items hd, ?_, h.confirmed⟩
  rw [h.flatMap_copies, ← h.log]
  exact copies_in_order hrun

/-- One result is submitted, read and accepted; the process dies before the cursor
is saved, and the next one sends the result again. -/
def resendEvents : List Event :=
  [.submitReliable .results "c-1" (some "1") 7 none,
    .loop .results (.readFrom "a" 8 true), .loop .results (.sendReliable true),
    .restart 0 10 (fun _ => true),
    .loop .results (.readFrom "a" 9 true), .loop .results (.sendReliable true)]

theorem permitted_resendEvents :
    Permitted step Undisturbed (new true 0 10 fun _ => ∅) resendEvents := by
  have hrest : ∀ e ∈ resendEvents.tail, ∀ r, Undisturbed r e := by
    intro e he r
    simp only [resendEvents, List.tail_cons, List.mem_cons, List.not_mem_nil, or_false] at he
    rcases he with rfl | rfl | rfl | rfl | rfl <;> trivial
  refine ⟨⟨by simp, by simp, ?_⟩, fun r _ => permitted_of_forall hrest r⟩
  intro q hq q' hq'
  have hstart : Queue.start ∅ 0 = q := by simpa [new] using hq
  have happended : ((Queue.start ∅ 0).append ⟨"c-1", .results, 7, "1"⟩ none).1 = q' := by
    simpa [new, submitReliable] using hq'
  subst hstart
  subst happended
  decide +kernel

theorem at_least_once_resent_item :
    ∃ r q, Reaches (Fires step Undisturbed) (new true 0 10 fun _ => ∅) r ∧
      r.queues .results = some q ∧ q.confirmed.length = 1 ∧ q.accepted.length = 2 ∧
      ((∀ e ∈ q.confirmed, (∃ d ∈ q.accepted, e ∈ q.copies d) ∨
        q.persisted.AtOrBefore e.1 ∧
          ∀ maxBytes out, Drains (openWal q.wal.dir maxBytes).dir q.persisted out →
            marshalItem e.2 ∈ out) ∧
      (∀ d ∈ q.accepted, (q.copies d).map Prod.snd = d.batch.items) ∧
      (q.accepted.flatMap q.copies).eraseDups <+: q.log ∧ q.confirmed.Sublist q.log) := by
  obtain ⟨r, run, hlengths⟩ := reaches_of_any step resendEvents
    (fun r => (r.queues .results).map (fun q => (q.confirmed.length, q.accepted.length)) =
      some (1, 2)) permitted_resendEvents (by decide +kernel)
  obtain ⟨q, hq, hlengths⟩ := Option.map_eq_some_iff.mp hlengths
  rw [Prod.mk.injEq] at hlengths
  exact ⟨r, q, run, hq, hlengths.1, hlengths.2, at_least_once (fun _ => by decide) run hq⟩

end TomAgent.Reporter
