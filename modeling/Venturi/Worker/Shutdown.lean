import Venturi.Worker.Custody
import Venturi.Worker.Slots

namespace Venturi

open Collections PostgresStore

/-!
# Shutdown accounting

`Worker::run`, `drain` and `force_finish` over the store, with any calls of other parties in
between.

* `Site` — the loop together with the store; a store call of the loop is a step of both.
* `past_of_settled` — a row is never again claimed at an epoch the worker settled.
* `shutdown_accounts` — when the worker returns, every epoch it claimed is concluded by
  exactly one call, and no row is still claimed at it.
-/

/-! ### A worker at its store -/

/-- The worker's loop and the store it works on. -/
structure Site where
  loop : Loop
  store : PostgresStore

/-- What happens at a site. -/
inductive SiteLabel where
  /-- A step of the worker; `env` is what the backend contributes if it is a store call. -/
  | own (env : Env) (label : LoopLabel)
  /-- A store call of some other party. -/
  | other (e : Event)

/-- The step of the loop. -/
def SiteLabel.loop? : SiteLabel → Option LoopLabel
  | .own _ label => some label
  | .other _ => none

/-- The step of the store. -/
def SiteLabel.event? : SiteLabel → Option Event
  | .own env (.call c reply) => some ⟨env, c, reply⟩
  | .own _ _ => none
  | .other e => some e

section Site

variable (fl : ℚ → ℚ) (registry : Registry) (w : Worker)

/-- One step of a site: what does not take part stays as it was. -/
structure Site.Step (x : Site) (label : SiteLabel) (x' : Site) : Prop where
  loop : ∀ l ∈ label.loop?, Loop.Step fl registry w x.loop l x'.loop
  idle : label.loop? = none → x'.loop = x.loop
  store : ∀ e ∈ label.event?, x.store.Step e x'.store
  still : label.event? = none → x'.store = x.store

/-- The runs of a worker at its store, with any other parties. -/
abbrev SiteRun : List (Trace.Move Site SiteLabel) → Site → Prop :=
  Trace.Run ⟨Loop.start registry, PostgresStore.empty⟩
    (fun _ x label x' => Site.Step fl registry w x label x')

end Site

/-- What is assumed of a step: a task fails only when the worker has aborted it, and no store
    call of the worker fails. -/
def Site.Proper (x : Site) : SiteLabel → Prop
  | .own _ (.ended _ _ .failed) => x.loop.custody.hand.aborted = true
  | .own _ (.call _ (.error _)) => False
  | _ => True

/-- The worker's steps in a history. -/
def loopLabels (tr : List (Trace.Move Site SiteLabel)) : List LoopLabel :=
  tr.filterMap (fun m => m.label.loop?)

/-- The store's part of a history. -/
def storeHistory (tr : List (Trace.Move Site SiteLabel)) : History :=
  Trace.project Site.store SiteLabel.event? tr

section Run

variable {fl : ℚ → ℚ} {registry : Registry} {w : Worker} {tr tr' : List (Trace.Move Site SiteLabel)}
  {m : Trace.Move Site SiteLabel} {x : Site}

/-- What a site does to its store is a run of it. -/
theorem SiteRun.store (h : SiteRun fl registry w tr x) :
    PostgresStore.Run (storeHistory tr) x.store :=
  Trace.Run.project (fun _ _ _ _ hs => hs.store) (fun _ _ _ _ hs => hs.still) h

theorem loopLabels_snoc : loopLabels (tr ++ [m]) = loopLabels tr ++ m.label.loop?.toList := by
  rw [loopLabels, List.filterMap_append]
  cases h : m.label.loop? <;> simp [loopLabels, h]

theorem storeHistory_append : storeHistory (tr ++ tr') = storeHistory tr ++ storeHistory tr' :=
  Trace.project_append

/-- A step the store sees stands in the store's history. -/
theorem storeHistory_middle {e : Event} (h : m.label.event? = some e) :
    storeHistory (tr ++ m :: tr') =
      storeHistory tr ++ ⟨m.before.store, e, m.after.store⟩ :: storeHistory tr' := by
  apply Trace.project_middle
  rw [Trace.Move.project, h]
  rfl

/-- In a proper step the tasks end as they do for a loop alone. -/
theorem Site.Proper.endsProperly {label : SiteLabel} (h : x.Proper label) :
    ∀ l ∈ label.loop?, l.EndsProperly x.loop.custody := by
  intro l hl id job hended
  cases label with
  | other e => cases hl
  | own env l' =>
    obtain rfl : l' = l := Option.some.inj hl
    subst hended
    exact h

/-- A call of the worker is a call of the store, and it succeeds. -/
theorem Site.Proper.event_of_call {label : SiteLabel} (h : x.Proper label) {c : Call}
    {reply : Except Error c.Answer} (hcall : label.loop? = some (.call c reply)) :
    ∃ env answer, label.event? = some ⟨env, c, .ok answer⟩ := by
  cases label with
  | other e => cases hcall
  | own env l =>
    obtain rfl : l = .call c reply := Option.some.inj hcall
    cases reply with
    | ok answer => exact ⟨env, answer, rfl⟩
    | error e => exact h.elim

/-- The worker's accounts balance in every state. -/
theorem balanced_of_run (h : SiteRun fl registry w tr x)
    (hproper : ∀ m ∈ tr, m.before.Proper m.label) :
    Balanced fl w (loopLabels tr) x.loop.custody := by
  refine Trace.Run.invariant (I := fun tr x => (∀ m ∈ tr, m.before.Proper m.label) →
    Balanced fl w (loopLabels tr) x.loop.custody) ?_ ?_ h hproper
  · exact fun _ => Balanced.start registry
  · intro tr x label x' _ hI hs hproper
    have hbalanced := hI (fun m hm => hproper m (List.mem_append_left _ hm))
    rw [loopLabels_snoc]
    cases hlabel : label.loop? with
    | none =>
      rw [hs.idle hlabel]
      simpa [hlabel] using hbalanced
    | some l =>
      have hends := (hproper ⟨x, label, x'⟩ (by simp)).endsProperly l hlabel
      have hstep := (hs.loop l hlabel).custody
      simpa [hlabel] using hbalanced.step hends hstep

/-! ### The epochs the worker claims -/

theorem handedOut_storeHistory_snoc {id : Ulid} :
    handedOut id (storeHistory (tr ++ [m])) = handedOut id (storeHistory tr) ++
      (m.label.event?.bind (fun e => (e.mark id).handed?)).toList := by
  rw [storeHistory, Trace.project_snoc, Trace.Move.project]
  cases m.label.event? with
  | none => simp [storeHistory]
  | some e => exact handedOut_snoc

/-- A claim of the worker is a run number the store handed out. -/
theorem count_claims_le (tr : List (Trace.Move Site SiteLabel)) (e : Epoch) :
    (claims (loopLabels tr)).count e ≤ (handedOut e.1 (storeHistory tr)).count e.2 := by
  induction tr using List.reverseRecOn with
  | nil => exact le_refl _
  | append_singleton tr m ih =>
    rw [loopLabels_snoc, handedOut_storeHistory_snoc, List.count_append]
    cases hlabel : m.label with
    | other event => simpa [SiteLabel.loop?] using Nat.le_add_right_of_le ih
    | own env label =>
      have hsnoc : claims (loopLabels tr ++ (SiteLabel.own env label).loop?.toList) =
          claims (loopLabels tr) ++ label.claim?.toList := claims_snoc
      rw [hsnoc, List.count_append]
      apply Nat.add_le_add ih
      cases hclaim : label.claim? with
      | none => simp
      | some e' =>
        -- the store marks the claim with the same run number
        obtain ⟨kinds, floor, lease, claimedBy, job, rfl, rfl⟩ := LoopLabel.claim?_eq_some hclaim
        by_cases he : job.epoch = e
        · subst he
          simp [SiteLabel.event?, Event.mark, Event.effect, Mark.handed?, JobRecord.epoch]
        · simp [he]

/-- No epoch is claimed twice. -/
theorem claims_nodup (h : SiteRun fl registry w tr x) (hfresh : FreshIds (storeHistory tr)) :
    (claims (loopLabels tr)).Nodup := by
  rw [List.nodup_iff_count_le_one]
  intro e
  obtain ⟨k, -, hhanded, -⟩ := (epochs_of_run h.store hfresh e.1).counted
  have hnodup : (handedOut e.1 (storeHistory tr)).Nodup := hhanded ▸ List.nodup_range'
  exact (count_claims_le tr e).trans (List.nodup_iff_count_le_one.mp hnodup e.2)

/-! ### Epochs that are over -/

/-- A settlement that did not fail ends the epoch it presents, whatever it returned: if the
    guard misses, the row is not claimed at the epoch any more. -/
theorem settle_past {s s' : PostgresStore} {r : JobRecord} {identity : String} {env : Env}
    {settlement : Settlement} {entry : JournalAppend} {answer : Bool}
    (hs : s.Step ⟨env, .settle r.id identity r.runCount settlement entry, .ok answer⟩ s')
    (hsnap : Snapshot r (s.view r.id)) (hclaimed : r.claimedBy = some identity) :
    Past r.runCount (s'.view r.id) := by
  simp only [Step, exec] at hs
  rcases commit_eq hs with ⟨_, hok, -⟩ | ⟨_, -, herr, -⟩
  · rcases settle_cases hok with ⟨-, rfl, hmiss⟩ | ⟨-, job, n, hjob, howned, hview⟩
    · -- a row still claimed at the epoch would have matched the guard
      intro j hj
      obtain ⟨hle, hrow⟩ := hsnap j hj
      refine ⟨hle, fun hclaim => hmiss j hj ?_⟩
      obtain ⟨hst, hrun⟩ := hclaim
      obtain ⟨expiry, hexpiry⟩ := hrow hst hrun
      have hby : j.row.claimedBy = some identity := by
        rw [hexpiry]
        exact hclaimed
      exact JobRecord.owned_iff.mpr ⟨view_id hj, hby, hrun, hst⟩
    · obtain ⟨-, -, hrun, -⟩ := JobRecord.owned_iff.mp howned
      rw [hview, Function.update_self]
      rintro _ ⟨⟩
      exact ⟨by simp [hrun], fun hclaim => Settlement.set_status_ne _ _ hclaim.1⟩
  · cases herr

/-- The worker claims under its identity. -/
theorem claimedBy_of_step {st st' : Loop} {kinds : List String} {floor : Int} {lease : Duration}
    {claimedBy : String} {reply : Except Error (Option JobRecord)}
    (hs : Loop.Step fl registry w st (.call (.claimNext kinds floor lease claimedBy) reply) st') :
    claimedBy = w.identity := by
  cases hs <;> rfl

/-- A claim hands out a row that names the claimer. -/
theorem claimedBy_of_claim {s s' : PostgresStore} {env : Env} {kinds : List String} {floor : Int}
    {lease : Duration} {claimedBy : String} {r : JobRecord}
    (hs : s.Step ⟨env, .claimNext kinds floor lease claimedBy, .ok (some r)⟩ s') :
    r.claimedBy = some claimedBy := by
  simp only [Step, exec] at hs
  rcases commit_eq hs with ⟨o, hok, hreply⟩ | ⟨_, -, herr, -⟩
  · obtain rfl := Except.ok.inj hreply
    rcases claimNext_cases hok with ⟨hnone, -⟩ | ⟨job, -, -, -, -, hsome, -⟩
    · cases hnone
    · obtain rfl := Option.some.inj hsome
      rfl
  · cases herr

/-- What the worker claimed in a run: the row it was handed, which it never holds unaware. -/
theorem row_of_claim (h : SiteRun fl registry w tr x) (hfresh : FreshIds (storeHistory tr))
    {e : Epoch} (he : e ∈ claims (loopLabels tr)) :
    ∃ r : JobRecord, r.epoch = e ∧ r.claimedBy = some w.identity ∧
      Snapshot r (x.store.view r.id) := by
  obtain ⟨label, hmem, hclaim⟩ := List.mem_filterMap.mp he
  obtain ⟨m, hm, hlabel⟩ := List.mem_filterMap.mp hmem
  obtain ⟨kinds, floor, lease, claimedBy, r, rfl, hepoch⟩ := LoopLabel.claim?_eq_some hclaim
  obtain ⟨tr₁, tr₂, rfl⟩ := List.append_of_mem hm
  obtain ⟨-, hs, -⟩ := h.split
  cases hown : m.label with
  | other event => simp [SiteLabel.loop?, hown] at hlabel
  | own env label =>
    obtain rfl : label = _ := by simpa [SiteLabel.loop?, hown] using hlabel
    have hevent : m.label.event? =
        some ⟨env, .claimNext kinds floor lease claimedBy, .ok (some r)⟩ := by rw [hown]; rfl
    obtain rfl := claimedBy_of_step (hs.loop _ hlabel)
    refine ⟨r, hepoch, claimedBy_of_claim (hs.store _ hevent), ?_⟩
    have hmove : ⟨m.before.store, ⟨env, .claimNext kinds floor lease w.identity, .ok (some r)⟩,
        m.after.store⟩ ∈ storeHistory (tr₁ ++ m :: tr₂) := by
      rw [storeHistory_middle hevent]
      exact List.mem_append_right _ List.mem_cons_self
    exact snapshot_of_run h.store hfresh hmove (List.mem_singleton_self r)

/-- The id of a claimed job was enqueued. -/
theorem enqueued_of_claim (h : SiteRun fl registry w tr x) (hfresh : FreshIds (storeHistory tr))
    {e : Epoch} (he : e ∈ claims (loopLabels tr)) : e.1 ∈ enqueued (storeHistory tr) := by
  by_contra hunborn
  obtain ⟨-, hnone, -⟩ := (epochs_of_run h.store hfresh e.1).unborn hunborn
  have hle := count_claims_le tr e
  have hpos : 0 < (claims (loopLabels tr)).count e := List.count_pos_iff.mpr he
  rw [hnone, List.count_nil] at hle
  omega

/-- A `settle` call is the worker's own, for an epoch it had claimed before. -/
theorem claimed_of_settle (h : SiteRun fl registry w (tr ++ [m]) x)
    (hproper : ∀ m' ∈ tr ++ [m], m'.before.Proper m'.label) {id : Ulid} {claimedBy : String}
    {runNo : Nat} {settlement : Settlement} {entry : JournalAppend} {reply : Except Error Bool}
    (hlabel : m.label.loop? = some (.call (.settle id claimedBy runNo settlement entry) reply)) :
    claimedBy = w.identity ∧ (id, runNo) ∈ claims (loopLabels tr) := by
  have hlabels : loopLabels (tr ++ [m]) =
      loopLabels tr ++ [.call (.settle id claimedBy runNo settlement entry) reply] := by
    rw [loopLabels_snoc, hlabel]
    rfl
  have hbalanced := balanced_of_run h hproper
  rw [hlabels] at hbalanced
  have hmade : Call.settle id claimedBy runNo settlement entry ∈ settlements
      (loopLabels tr ++ [.call (.settle id claimedBy runNo settlement entry) reply]) := by
    rw [settlements_snoc]
    exact List.mem_append_right _ (List.mem_singleton_self _)
  constructor
  · obtain ⟨ending, -, hconcludes⟩ := hbalanced.answered.concluded _ hmade
    exact hconcludes.claimedBy
  · -- what is settled was claimed, and this step claims nothing
    have hclaimed : (id, runNo) ∈ claims
        (loopLabels tr ++ [.call (.settle id claimedBy runNo settlement entry) reply]) := by
      refine hbalanced.accounts.settled.mem_iff.mpr (List.mem_append_left _ ?_)
      exact List.mem_filterMap.mpr ⟨_, hmade, rfl⟩
    rw [claims_snoc] at hclaimed
    simpa [LoopLabel.claim?] using hclaimed

/-- An epoch the worker settled is over. -/
theorem past_of_settled (h : SiteRun fl registry w tr x) (hfresh : FreshIds (storeHistory tr))
    (hproper : ∀ m ∈ tr, m.before.Proper m.label) {c : Call}
    (hc : c ∈ settlements (loopLabels tr)) {e : Epoch} (he : c.settles = some e) :
    Past e.2 (x.store.view e.1) := by
  obtain ⟨label, hmem, hsettle⟩ := List.mem_filterMap.mp hc
  obtain ⟨m, hm, hlabel⟩ := List.mem_filterMap.mp hmem
  obtain ⟨reply, rfl⟩ := LoopLabel.settle?_eq_some hsettle
  obtain ⟨tr₁, tr₂, rfl⟩ := List.append_of_mem hm
  obtain ⟨hrun, hs, hrun'⟩ := h.split
  cases c with
  | settle id claimedBy runNo settlement entry =>
    obtain rfl : (id, runNo) = e := Option.some.inj he
    have hproper' : ∀ m' ∈ tr₁ ++ [m], m'.before.Proper m'.label := by
      intro m' hm'
      apply hproper m'
      rw [List.append_cons]
      exact List.mem_append_left _ hm'
    obtain ⟨rfl, hclaim⟩ := claimed_of_settle hrun' hproper' hlabel
    have hfresh₁ : FreshIds (storeHistory tr₁) := by
      rw [storeHistory_append] at hfresh
      exact hfresh.of_append
    obtain ⟨r, hepoch, hby, hsnap⟩ := row_of_claim hrun hfresh₁ hclaim
    obtain ⟨rfl, rfl⟩ := Prod.mk.inj hepoch
    obtain ⟨env, answer, hevent⟩ : ∃ env answer, m.label.event? =
        some ⟨env, .settle r.id w.identity r.runCount settlement entry, .ok answer⟩ :=
      Site.Proper.event_of_call (hproper m hm) hlabel
    have hpast := settle_past (hs.store _ hevent) hsnap hby
    -- from this call on nothing brings the epoch back
    have hborn := enqueued_of_claim hrun hfresh₁ hclaim
    have hstore := h.store
    rw [storeHistory_middle hevent] at hstore hfresh
    refine PostgresStore.Run.jobSince (J := fun _ job => Past r.runCount job) ?_ hpast
      (fun _ _ _ hpast _ => hpast) (fun _ _ _ hpast hmark hstep => hpast.step hstep hmark) hstore
      hfresh
    rw [enqueued, List.filterMap_append]
    exact List.mem_append_left _ hborn
  | _ => cases he

/-- **Shutdown accounting.** When the worker has returned: it made one `settle` call for every
    epoch it claimed and none for any other, the handler's own settlement if the task returned
    and a release exactly if it was aborted; and no row is still claimed at such an epoch. -/
theorem shutdown_accounts (h : SiteRun fl registry w tr x) (hfresh : FreshIds (storeHistory tr))
    (hproper : ∀ m ∈ tr, m.before.Proper m.label) (hreturned : x.loop.phase = .returned) :
    Concluded fl w (loopLabels tr) ∧
      ∀ e ∈ claims (loopLabels tr), ∀ j, x.store.view e.1 = some j →
        ¬ (j.row.status = .claimed ∧ j.row.runCount = e.2) := by
  -- a worker that has returned has nothing left in hand
  have hhand : x.loop.custody.hand = .stragglers [] := by rw [Loop.custody, hreturned]; rfl
  have hconcluded := (balanced_of_run h hproper).concluded hhand (claims_nodup h hfresh)
  refine ⟨hconcluded, fun e he j hj => ?_⟩
  have hsettled : e ∈ (settlements (loopLabels tr)).filterMap Call.settles := by
    rw [← List.count_pos_iff, hconcluded.once e, if_pos he]
    exact Nat.one_pos
  obtain ⟨c, hc, hepoch⟩ := List.mem_filterMap.mp hsettled
  exact (past_of_settled h hfresh hproper hc hepoch j hj).2

end Run

/-! ### A sample shutdown -/

section Sample

variable {fl : ℚ → ℚ} {registry : Registry} {w : Worker} {st st' : Loop} {s s' : PostgresStore}

theorem Site.Step.ofCall (env : Env) {c : Call} {reply : Except Error c.Answer}
    (hl : Loop.Step fl registry w st (.call c reply) st') (hs : s.Step ⟨env, c, reply⟩ s') :
    Site.Step fl registry w ⟨st, s⟩ (.own env (.call c reply)) ⟨st', s'⟩ where
  loop := by
    rintro _ ⟨⟩
    exact hl
  idle := nofun
  store := by
    rintro _ ⟨⟩
    exact hs
  still := nofun

theorem Site.Step.ofOwn {label : LoopLabel} (hl : Loop.Step fl registry w st label st')
    (hcall : (SiteLabel.own (.ofNow 0) label).event? = none) :
    Site.Step fl registry w ⟨st, s⟩ (.own (.ofNow 0) label) ⟨st', s⟩ where
  loop := by
    rintro _ ⟨⟩
    exact hl
  idle := nofun
  store := by simp [hcall]
  still _ := rfl

theorem Site.Step.ofOther {e : Event} (hs : s.Step e s') :
    Site.Step fl registry w ⟨st, s⟩ (.other e) ⟨st, s'⟩ where
  loop := by simp [SiteLabel.loop?]
  idle _ := rfl
  store e' he' := by
    obtain rfl : e = e' := Option.some.inj he'
    exact hs
  still := by simp [SiteLabel.event?]

end Sample

/-- The runs of the sample worker that meet the assumptions. -/
abbrev SampleSiteRun : List (Trace.Move Site SiteLabel) → Site → Prop :=
  Trace.Run ⟨Loop.start sampleRegistry, empty⟩
    (fun _ x label x' => Site.Step id sampleRegistry sampleWorker x label x' ∧ x.Proper label)

/-- The sample job is enqueued and claimed, and its task spawned. -/
theorem sampleSpawned_run : ∃ tr, SampleSiteRun tr ⟨sampleBusy, sampleClaimed.after⟩ ∧
    enqueued (storeHistory tr) = [0] := by
  have henqueued : empty.Step ⟨.ofNow 0, .enqueue sampleJob, .ok ()⟩ sampleEnqueue.after := rfl
  have hclaimed : sampleEnqueue.after.Step sampleClaimed.label sampleClaimed.after := rfl
  refine ⟨_, .snoc (.snoc (.snoc (.snoc (.snoc (.snoc (.snoc (.snoc .start
    ⟨.ofOther henqueued, trivial⟩)
    ⟨.ofCall (.ofNow 0) (.scan rfl 0 []) rfl, trivial⟩)
    ⟨.ofOwn (.recovered rfl) rfl, trivial⟩)
    ⟨.ofOwn (.claim rfl (by decide) rfl (by decide)) rfl, trivial⟩)
    ⟨.ofCall (.ofNow 0) (.claimed rfl sampleRow) hclaimed, trivial⟩)
    ⟨.ofOwn (.keepLease rfl rfl) rfl, trivial⟩)
    ⟨.ofCall (.ofNow 0) (.load rfl []) rfl, trivial⟩)
    ⟨.ofOwn (.spawn rfl 7 (by decide)) rfl, trivial⟩, ?_⟩
  rfl

/-- The worker past the drain deadline, … -/
def sampleDeadline : Loop := { sampleBusy with phase := .forcing, shutdown := true }

/-- … and its one handler aborted. -/
def sampleAborted : Loop := sampleDeadline.finish 7 ⟨sampleRow, [], none⟩ .failed

/-- Shutdown is raised, the drain deadline fires, the handler is aborted and its job
    released. -/
theorem sampleReleased_run : ∃ tr x, SampleSiteRun tr x ∧ FreshIds (storeHistory tr) ∧
    x.loop.phase = .returned := by
  obtain ⟨tr, hrun, henqueued⟩ := sampleSpawned_run
  have hdeadline : SampleSiteRun _ ⟨sampleDeadline, sampleClaimed.after⟩ :=
    .snoc (.snoc (.snoc (.snoc (.snoc hrun
      ⟨.ofOwn (.full rfl (by decide)) rfl, trivial⟩)
      ⟨.ofCall (.ofNow 0) (.measure rfl 0 (.ok none)) rfl, trivial⟩)
      ⟨.ofOwn .cancelled rfl, trivial⟩)
      ⟨.ofOwn (.stop rfl rfl) rfl, trivial⟩)
      ⟨.ofOwn (.deadline rfl (by decide)) rfl, trivial⟩
  have htask : sampleDeadline.running.lookup 7 = some ⟨sampleRow, [], none⟩ := rfl
  have hended : Loop.Step id sampleRegistry sampleWorker sampleDeadline
      (.ended 7 sampleRow .failed) sampleAborted := .ended htask rfl .failed
  have hjoined : Loop.Step id sampleRegistry sampleWorker sampleAborted (.joined 7)
      (sampleAborted.join 7) := .forceFailed rfl rfl
  have hforced : Loop.Step id sampleRegistry sampleWorker (sampleAborted.join 7) .internal
      { sampleAborted.join 7 with inflight := ∅, phase := .releasing [sampleRow.inflight] } :=
    .forced rfl rfl (.refl _)
  have hreleased : sampleClaimed.after.Step
      ⟨.ofNow 1, sampleWorker.release 1 sampleRow.inflight, .ok true⟩
      (sampleClaimed.after.next (.ofNow 1) (sampleWorker.release 1 sampleRow.inflight)).after := rfl
  refine ⟨_, _, .snoc (.snoc (.snoc (.snoc (.snoc hdeadline
    ⟨.ofOwn hended rfl, rfl⟩) ⟨.ofOwn hjoined rfl, trivial⟩) ⟨.ofOwn hforced rfl, trivial⟩)
    ⟨.ofCall (.ofNow 1) (.release rfl 1 (.ok true)) hreleased, trivial⟩)
    ⟨.ofOwn (.done rfl) rfl, trivial⟩, ?_, rfl⟩
  -- no enqueue since the spawn
  rw [FreshIds]
  simp only [List.append_assoc]
  rw [storeHistory_append, enqueued, List.filterMap_append]
  have hbefore : (storeHistory tr).filterMap (fun m => m.label.call.enqueues) = [0] := henqueued
  rw [hbefore]
  exact List.nodup_singleton 0

/-- The sample worker is stopped, and each of its claims is concluded. -/
theorem shutdown_accounts_sampleReleased :
    ∃ tr x, SiteRun id sampleRegistry sampleWorker tr x ∧ x.loop.phase = .returned ∧
      Concluded id sampleWorker (loopLabels tr) := by
  obtain ⟨tr, x, h, hfresh, hreturned⟩ := sampleReleased_run
  obtain ⟨hrun, hproper⟩ := Trace.Run.and_iff.mp h
  exact ⟨tr, x, hrun, hreturned, (shutdown_accounts hrun hfresh hproper hreturned).1⟩

end Venturi
