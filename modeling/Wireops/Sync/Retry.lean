import Wireops.Channel.Origin
import Wireops.Sync.Reconcile

namespace Wireops.Sync.Retry

open Option Function List Protocol Lib.Steps Lib.Table Server Server.Addresses
open Worker Worker.Results Channel Channel.Origin
open Sync.Reconcile (maxRetries shouldRetryDeploy)
open Channel.Model (online sent executed cached answered)

def extractDispatchResult : Dispatch.Reply → Option String
  | .result r => if r.error = "" then none else some r.error
  | .error text => some text

inductive LoopPhase where
  | prepare
  | dispatched (call : Nat)
  | failed (runErr : String)
  | sleeping (runErr : String)
  | finished (runErr : Option String)
  deriving DecidableEq

/-- `calls` lists the attempts that reached `Dispatch`, with their calls. -/
structure Loop where
  syncLogID : String
  workerID : String
  attempt : Nat := 1
  phase : LoopPhase := .prepare
  calls : List (Nat × Nat) := []

structure State where
  channel : Model.State := {}
  loops : Nat → Option Loop := fun _ => none
  nextLoop : Nat := 0

/-- `abort` is an error the loop returns or breaks on, `fail` one it retries
after without having dispatched, `cancel` the end of the context or a failed
update of the sync log between two attempts. -/
inductive Action where
  | channel (a : Model.Action)
  | enter (syncLogID workerID : String)
  | abort (loop : Nat) (text : String)
  | fail (loop : Nat) (text : String)
  | attempt (loop : Nat) (cmd : Command)
  | settle (loop : Nat)
  | retry (loop : Nat)
  | cancel (loop : Nat) (text : String)
  | wake (loop : Nat)
  deriving DecidableEq, Repr

def deploys (syncLogID : String) : Command → Bool
  | .deploy c | .redeploy c => c.commandID = syncLogID
  | _ => false

def unused (s : State) (syncLogID : String) : Bool :=
  (List.range s.nextLoop).all (fun i => (s.loops i).all (fun l => l.syncLogID ≠ syncLogID))

def State.setLoop (s : State) (i : Nat) (l : Loop) : State :=
  { s with loops := update s.loops i (some l) }

/-- `loopID` are the ids of the sync logs of retry loops: no two loops share
one, and no other command is dispatched under one. -/
def foreign (loopID : String → Bool) : Model.Action → Bool
  | .server (.dispatch _ cmd) => !loopID cmd.commandID
  | _ => true

def attempt (s : State) (i : Nat) (l : Loop) (ch : Model.State) : State :=
  { s.setLoop i { l with
      phase := .dispatched s.channel.server.nextCall
      calls := l.calls ++ [(l.attempt, s.channel.server.nextCall)] } with
    channel := ch }

def settled (l : Loop) (reply : Dispatch.Reply) : Loop :=
  match extractDispatchResult reply with
  | none => { l with phase := .finished none }
  | some runErr => { l with phase := .failed runErr }

def step (loopID : String → Bool) (s : State) : Action → Option State
  | .channel a =>
    if foreign loopID a then (Model.step s.channel a).map (fun ch => { s with channel := ch }) else none
  | .enter syncLogID workerID =>
    if loopID syncLogID && unused s syncLogID then
      some { s.setLoop s.nextLoop { syncLogID, workerID } with nextLoop := s.nextLoop + 1 }
    else none
  | .abort i text => do
    let l ← s.loops i
    match l.phase with
    | .prepare => some (s.setLoop i { l with phase := .finished (some text) })
    | _ => none
  | .fail i text => do
    let l ← s.loops i
    match l.phase with
    | .prepare => some (s.setLoop i { l with phase := .failed text })
    | _ => none
  | .attempt i cmd => do
    let l ← s.loops i
    match l.phase with
    | .prepare =>
      if deploys l.syncLogID cmd then
        (Model.step s.channel (.server (.dispatch l.workerID cmd))).map (attempt s i l)
      else none
    | _ => none
  | .settle i => do
    let l ← s.loops i
    match l.phase with
    | .dispatched k => do
      let c ← s.channel.server.calls k
      match c.phase with
      | .returned reply => some (s.setLoop i (settled l reply))
      | _ => none
    | _ => none
  | .retry i => do
    let l ← s.loops i
    match l.phase with
    | .failed runErr =>
      if shouldRetryDeploy l.attempt maxRetries then
        some (s.setLoop i { l with phase := .sleeping runErr })
      else some (s.setLoop i { l with phase := .finished (some runErr) })
    | _ => none
  | .cancel i text => do
    let l ← s.loops i
    match l.phase with
    | .sleeping _ => some (s.setLoop i { l with phase := .finished (some text) })
    | _ => none
  | .wake i => do
    let l ← s.loops i
    match l.phase with
    | .sleeping _ => some (s.setLoop i { l with phase := .prepare, attempt := l.attempt + 1 })
    | _ => none

variable {loopID : String → Bool} {s t : State} {a : Action}

/-- A loop moves on by itself, dispatches, or the channel moves under it. -/
inductive Fires (loopID : String → Bool) (s : State) : Action → State → Prop where
  | channel {a : Model.Action} {ch : Model.State} (hf : foreign loopID a = true)
    (h : Model.step s.channel a = some ch) : Fires loopID s (.channel a) { s with channel := ch }
  | enter {syncLogID workerID : String} (hid : loopID syncLogID = true)
    (hu : unused s syncLogID = true) : Fires loopID s (.enter syncLogID workerID)
      { s.setLoop s.nextLoop { syncLogID, workerID } with nextLoop := s.nextLoop + 1 }
  | attempt {i : Nat} {l : Loop} {cmd : Command} {ch : Model.State} (hl : s.loops i = some l)
    (hp : l.phase = .prepare) (hd : deploys l.syncLogID cmd = true)
    (h : Model.step s.channel (.server (.dispatch l.workerID cmd)) = some ch) :
    Fires loopID s (.attempt i cmd) (attempt s i l ch)
  | local_ {a : Action} {i : Nat} {l l' : Loop} (hl : s.loops i = some l)
    (hid : l'.syncLogID = l.syncLogID) (hw : l'.workerID = l.workerID) (hc : l'.calls = l.calls) :
    Fires loopID s a (s.setLoop i l')

theorem settled_kept (l : Loop) (reply : Dispatch.Reply) :
    (settled l reply).syncLogID = l.syncLogID ∧ (settled l reply).workerID = l.workerID ∧
      (settled l reply).calls = l.calls := by
  unfold settled
  split <;> exact ⟨rfl, rfl, rfl⟩

theorem step_fires (h : step loopID s a = some t) : Fires loopID s a t := by
  cases a with
  | channel a =>
    obtain ⟨hf, h⟩ := ite_none_right_eq_some.mp h
    obtain ⟨ch, hch, rfl⟩ := map_eq_some_iff.mp h
    exact .channel hf hch
  | enter syncLogID workerID =>
    obtain ⟨hc, ⟨⟩⟩ := ite_none_right_eq_some.mp h
    rw [Bool.and_eq_true] at hc
    exact .enter hc.1 hc.2
  | attempt i cmd =>
    obtain ⟨l, hl, h⟩ := bind_eq_some_iff.mp h
    split at h
    · next hp =>
      obtain ⟨hd, h⟩ := ite_none_right_eq_some.mp h
      obtain ⟨ch, hch, rfl⟩ := map_eq_some_iff.mp h
      exact .attempt hl hp hd hch
    · cases h
  | settle i =>
    obtain ⟨l, hl, h⟩ := bind_eq_some_iff.mp h
    split at h
    · obtain ⟨c, _, h⟩ := bind_eq_some_iff.mp h
      split at h
      · next reply _ =>
        cases h
        obtain ⟨hid, hw, hc⟩ := settled_kept l reply
        exact .local_ hl hid hw hc
      · cases h
    · cases h
  | retry i =>
    obtain ⟨l, hl, h⟩ := bind_eq_some_iff.mp h
    split at h
    · split at h <;> cases h <;> exact .local_ hl rfl rfl rfl
    · cases h
  | abort i | fail i | cancel i | wake i =>
    obtain ⟨l, hl, h⟩ := bind_eq_some_iff.mp h
    split at h
    · cases h
      exact .local_ hl rfl rfl rfl
    · cases h

/-- What the loops and the channel know of each other. -/
structure Inv (loopID : String → Bool) (s : State) : Prop where
  traced : Traced (fun id => loopID id = true) False s.channel
  nextLoop : ∀ i, s.nextLoop ≤ i → s.loops i = none
  isLoop : ∀ i l, s.loops i = some l → loopID l.syncLogID = true
  unique : ∀ i j l l', s.loops i = some l → s.loops j = some l' → l.syncLogID = l'.syncLogID → i = j
  owned : ∀ i l k call, s.loops i = some l → (k, call) ∈ l.calls →
    ∃ c, s.channel.server.calls call = some c ∧ c.workerID = l.workerID ∧ c.cmd.commandID = l.syncLogID
  expected : ∀ v id, loopID id = true → Expecting s.channel v id →
    ∃ i l, s.loops i = some l ∧ l.syncLogID = id ∧ l.workerID = v

/-- The condition: when an attempt is dispatched, no result of an earlier
execution of the command is cached, under way or unsent at the worker, and the
worker refuses no attempt. -/
def Unanswered (loopID : String → Bool) (s : State) : Action → Prop
  | .attempt i _ => ∀ l ∈ s.loops i, live (s.channel.worker l.workerID) l.syncLogID = false
  | .channel (.deliver n (some _)) =>
    ∀ cmd ∈ (Model.wire s.channel.server n)[s.channel.read n]?, loopID cmd.commandID = false
  | _ => True

instance (s : State) (a : Action) : Decidable (Unanswered loopID s a) := by
  unfold Unanswered
  split <;> infer_instance

theorem inv_init (loopID : String → Bool) : Inv loopID {} where
  traced := traced_init _ _
  nextLoop _ _ := rfl
  isLoop _ _ h := nomatch h
  unique _ _ _ _ h := nomatch h
  owned _ _ _ _ h := nomatch h
  expected v id _ h := by
    obtain ho | ⟨m, hm, _⟩ := h
    · cases ho with
      | due h => cases h with
        | called hc => cases hc
        | listed hl => cases hl
        | queued hx => cases hx
      | written hn =>
        obtain ⟨x, hx, _⟩ := hn
        cases hx
      | handled hc => cases hc
    · cases hm

theorem commandID_of_deploys {id : String} {cmd : Command} (h : deploys id cmd = true) : cmd.commandID = id := by
  cases cmd with
  | deploy c | redeploy c => exact of_decide_eq_true h
  | _ => cases h

theorem loops_setLoop {i j : Nat} {l l' d : Loop} (hl : s.loops i = some l)
    (hid : l'.syncLogID = l.syncLogID) (hw : l'.workerID = l.workerID) (hd : (s.setLoop i l').loops j = some d) :
    ∃ d', s.loops j = some d' ∧ d.syncLogID = d'.syncLogID ∧ d.workerID = d'.workerID := by
  obtain ⟨rfl, rfl⟩ | ⟨_, hd⟩ := update_some_cases hd
  · exact ⟨l, hl, hid, hw⟩
  · exact ⟨d, hd, rfl, rfl⟩

theorem setLoop_loops {i j : Nat} {l l' d : Loop} (hl : s.loops i = some l)
    (hid : l'.syncLogID = l.syncLogID) (hw : l'.workerID = l.workerID) (hd : s.loops j = some d) :
    ∃ d', (s.setLoop i l').loops j = some d' ∧ d'.syncLogID = d.syncLogID ∧ d'.workerID = d.workerID := by
  by_cases hj : j = i
  · subst hj
    rw [hl] at hd
    cases hd
    exact ⟨l', update_self .., hid, hw⟩
  · exact ⟨d, (update_of_ne hj ..).trans hd, rfl, rfl⟩

variable {ch : Model.State}

section

variable (hs : Inv loopID s)

include hs

variable {i : Nat} {l : Loop}

theorem Inv.setLoop {l' : Loop}
    (hl : s.loops i = some l) (hid : l'.syncLogID = l.syncLogID) (hw : l'.workerID = l.workerID)
    (htraced : Traced (fun id => loopID id = true) False ch)
    (howned : ∀ j d k call, (s.setLoop i l').loops j = some d → (k, call) ∈ d.calls →
      ∃ c, ch.server.calls call = some c ∧ c.workerID = d.workerID ∧ c.cmd.commandID = d.syncLogID)
    (hexpected : ∀ v id, loopID id = true → Expecting ch v id →
      ∃ j d, s.loops j = some d ∧ d.syncLogID = id ∧ d.workerID = v) :
    Inv loopID { s.setLoop i l' with channel := ch } where
  traced := htraced
  nextLoop := unused_change hs.nextLoop hl
  isLoop j d hd := by
    obtain ⟨d', hd', he, _⟩ := loops_setLoop hl hid hw hd
    exact he ▸ hs.isLoop j d' hd'
  unique j j' d d' hd hd' he := by
    obtain ⟨e, he', hee, _⟩ := loops_setLoop hl hid hw hd
    obtain ⟨e', he'', hee', _⟩ := loops_setLoop hl hid hw hd'
    exact hs.unique j j' e e' he' he'' (hee.symm.trans (he.trans hee'))
  owned := howned
  expected v id hloop he := by
    obtain ⟨j, d, hd, hdid, hdw⟩ := hexpected v id hloop he
    obtain ⟨d', hd', he, hw'⟩ := setLoop_loops hl hid hw hd
    exact ⟨j, d', hd', he.trans hdid, hw'.trans hdw⟩

theorem owned_channel {b : Model.Action}
    (h : Model.step s.channel b = some ch) {k call : Nat} (hl : s.loops i = some l)
    (hm : (k, call) ∈ l.calls) : ∃ c, ch.server.calls call = some c ∧ c.workerID = l.workerID ∧
      c.cmd.commandID = l.syncLogID := by
  obtain ⟨c, hc, hw, hid⟩ := hs.owned i l k call hl hm
  obtain ⟨c', hc', hw', hcmd⟩ := fires_call_kept hs.traced.sound (Model.step_fires h) hc
  exact ⟨c', hc', hw'.trans hw, hcmd ▸ hid⟩

theorem inv_channel {b : Model.Action} (hg : Unanswered loopID s (.channel b)) (hf : foreign loopID b = true)
    (h : Model.step s.channel b = some ch) : Inv loopID { s with channel := ch } where
  __ := hs
  traced := by
    refine step_traced s.channel b ch hs.traced ?_ h
    cases b with
    | server b =>
      cases b with
      | dispatch v cmd =>
        intro hloop
        simp only [foreign, Bool.not_eq_true'] at hf
        rw [hf] at hloop
        cases hloop
      | _ => trivial
    | deliver n draining =>
      cases draining with
      | none => trivial
      | some d =>
        intro cmd hm hloop
        rw [hg cmd hm] at hloop
        cases hloop
    | work => trivial
    | report => trivial
  owned i l k call hl hm := owned_channel hs h hl hm
  expected v id hloop he := by
    obtain he | ⟨cmd, rfl, hid⟩ := fires_expecting hs.traced.sound (Model.step_fires h) he
    · exact hs.expected v id hloop he
    · simp only [foreign, Bool.not_eq_true'] at hf
      rw [← hid, hf] at hloop
      cases hloop

theorem attempt_clear (hl : s.loops i = some l) (hlive : live (s.channel.worker l.workerID) l.syncLogID = false) :
    Clear s.channel l.workerID l.syncLogID where
  here := not_live (hs.traced.sound.labelled _) hlive
  elsewhere w hne he := by
    obtain ⟨j, d, hd, hid, hw⟩ := hs.expected w l.syncLogID (hs.isLoop i l hl) he
    have hij := hs.unique j i d l hd hl hid
    subst hij
    rw [hl] at hd
    cases hd
    exact hne hw.symm

theorem inv_attempt {cmd : Command} (hg : Unanswered loopID s (.attempt i cmd)) (hl : s.loops i = some l)
    (hd : deploys l.syncLogID cmd = true) (h : Model.step s.channel (.server (.dispatch l.workerID cmd)) = some ch) :
    Inv loopID (attempt s i l ch) := by
  have hid := commandID_of_deploys hd
  refine hs.setLoop hl rfl rfl ?_ ?_ ?_
  · refine step_traced s.channel _ ch hs.traced ?_ h
    intro _
    rw [hid]
    exact attempt_clear hs hl (hg l hl)
  · intro j d k call hdj hm
    obtain ⟨_, rfl⟩ | ⟨_, hdj⟩ := update_some_cases hdj
    · obtain hm | hm := mem_append.mp hm
      · exact owned_channel (l := l) hs h hl hm
      · cases mem_singleton.mp hm
        obtain ⟨c, hc, hw, hcmd⟩ := dispatch_made h
        exact ⟨c, hc, hw, by rw [hcmd, hid]⟩
    · exact owned_channel hs h hdj hm
  · intro v id hloop he
    obtain he | ⟨cmd', ha, hid'⟩ := fires_expecting hs.traced.sound (Model.step_fires h) he
    · exact hs.expected v id hloop he
    · cases ha
      exact ⟨i, l, hl, hid.symm.trans hid', rfl⟩

theorem inv_enter {syncLogID workerID : String} (hid : loopID syncLogID = true)
    (hu : unused s syncLogID = true) : Inv loopID
      { s.setLoop s.nextLoop { syncLogID, workerID } with nextLoop := s.nextLoop + 1 } := by
  have hunused : ∀ i l, s.loops i = some l → l.syncLogID ≠ syncLogID := by
    intro i l hl
    have hi : i < s.nextLoop := by
      by_contra hge
      rw [hs.nextLoop i (by omega)] at hl
      cases hl
    have h := all_eq_true.mp hu i (mem_range.mpr hi)
    rw [hl] at h
    exact of_decide_eq_true h
  have old : ∀ {i l}, s.loops i = some l → (s.setLoop s.nextLoop { syncLogID, workerID }).loops i = some l := by
    exact update_kept (hs.nextLoop _ (Nat.le_refl _))
  refine ⟨hs.traced, unused_fill hs.nextLoop, forall_update_some hs.isLoop hid, ?_, ?_, ?_⟩
  · intro i j l l' hl hl' he
    obtain ⟨rfl, rfl⟩ | ⟨_, hli⟩ := update_some_cases hl
    · obtain ⟨rfl, _⟩ | ⟨_, hlj⟩ := update_some_cases hl'
      · rfl
      · exact absurd he.symm (hunused j l' hlj)
    · obtain ⟨rfl, rfl⟩ | ⟨_, hlj⟩ := update_some_cases hl'
      · exact absurd he (hunused i l hli)
      · exact hs.unique i j l l' hli hlj he
  · intro i l k call hl hm
    obtain ⟨_, rfl⟩ | ⟨_, hl⟩ := update_some_cases hl
    · cases hm
    · exact hs.owned i l k call hl hm
  · intro v id hloop he
    obtain ⟨i, l, hl, h⟩ := hs.expected v id hloop he
    exact ⟨i, l, old hl, h⟩

end

theorem step_inv (s : State) (a : Action) (t : State) (hs : Inv loopID s)
    (hg : Unanswered loopID s a) (h : step loopID s a = some t) : Inv loopID t := by
  cases step_fires h with
  | channel hf hch => exact inv_channel hs hg hf hch
  | enter hid hu => exact inv_enter hs hid hu
  | attempt hl _ hd hch => exact inv_attempt hs hg hl hd hch
  | @local_ _ i l l' hl hid hw hc =>
    refine hs.setLoop hl hid hw hs.traced ?_ hs.expected
    intro j d k call hd hm
    obtain ⟨_, rfl⟩ | ⟨_, hd⟩ := update_some_cases hd
    · obtain ⟨c, hcall, hcw, hcid⟩ := hs.owned i l k call hl (hc ▸ hm)
      exact ⟨c, hcall, hcw.trans hw.symm, hcid.trans hid.symm⟩
    · exact hs.owned j d k call hd hm

/-- The result an attempt took is what an execution of the command returned
that its worker began after the attempt was dispatched. -/
def FreshResults (s : State) : Prop :=
  ∀ i l k call c r, s.loops i = some l → (k, call) ∈ l.calls →
    s.channel.server.calls call = some c → taken c.phase = some r →
    ∃ e x at_, (s.channel.worker l.workerID).execs e = some x ∧
      x.cmd.commandID = l.syncLogID ∧ x.finished = some (at_, r) ∧ s.channel.begun call ≤ e

theorem unanswered_attempts_fresh {as : List Action} {t : State} (hg : Meets (step loopID) (Unanswered loopID) {} as)
    (hr : run (step loopID) {} as = some t) : FreshResults t := by
  have hs := run_invariant step_inv (inv_init loopID) hg hr
  intro i l k call c r hl hm hc htaken
  obtain ⟨c', hc', hw, hid⟩ := hs.owned i l k call hl hm
  rw [hc] at hc'
  cases hc'
  have hloop : loopID c.cmd.commandID = true := hid ▸ hs.isLoop i l hl
  obtain ⟨x, _, hsince, hsrc⟩ := (hs.traced.call call c hc hloop).used r htaken
  cases x with
  | none => exact hsince.elim
  | some e =>
    obtain ⟨_, y, at_, hy, hyid, hf⟩ := hsrc
    rw [hw] at hy
    exact ⟨e, y, at_, hy, hyid.trans hid, hf, hsince⟩

def syncID (id : String) : Bool := id = "sync-1"

def deployment : Command := .deploy ⟨"sync-1", "", "stack", "c1"⟩

/-- The first attempt runs and fails; the second comes three seconds later. -/
def retriedFromCache : List Action :=
  (online "w" 0).map Action.channel ++ [Action.enter "sync-1" "w", .attempt 0 deployment] ++
    (sent 0 0 "m1" ++ executed "w" 0 "pull failed" ++ answered 0 0).map Action.channel ++
    [Action.settle 0, .retry 0, .channel (.work "w" (.tick 3000000000)), .wake 0, .attempt 0 deployment] ++
    (sent 0 1 "m2" ++ cached "w" 1 ++ answered 0 1).map Action.channel ++ [Action.settle 0]

theorem retry_answered_from_cache : ∃ t ∈ run (step syncID) {} retriedFromCache,
    ∃ l ∈ t.loops 0, l.phase = .failed "pull failed" ∧ l.calls = [(1, 0), (2, 1)] ∧
      (t.channel.worker "w").nextExec = 1 ∧ t.channel.begun 1 = 1 ∧ ¬ FreshResults t := by
  refine ⟨_, rfl, _, rfl, by decide, by decide, by decide, by decide, ?_⟩
  intro h
  obtain ⟨e, x, at_, hx, _, _, hle⟩ :=
    h 0 _ 2 1 _ ⟨"sync-1", "", "", "pull failed"⟩ rfl (by decide) rfl rfl
  cases e with
  | zero => exact absurd hle (by decide)
  | succ e => cases hx

def retriedAfterLoss : List Action :=
  (online "w" 0).map Action.channel ++ [Action.enter "sync-1" "w", .attempt 0 deployment] ++
    [Action.channel (.server (.register 0)), .channel (.server (.send 0 "m1" false)),
      .channel (.server (.giveUp 0 "context deadline exceeded")),
      .channel (.server (.unregister 0)), .settle 0, .retry 0,
      .channel (.work "w" (.tick 3000000000)), .wake 0, .attempt 0 deployment] ++
    (sent 0 1 "m2" ++ executed "w" 0 "" ++ answered 0 1).map Action.channel ++ [Action.settle 0]

theorem retry_executed_after_loss : ∃ t ∈ run (step syncID) {} retriedAfterLoss,
    (∃ l ∈ t.loops 0, l.phase = .finished none ∧ l.calls = [(1, 0), (2, 1)]) ∧ FreshResults t :=
  ⟨_, rfl, ⟨_, rfl, by decide, by decide⟩,
    @unanswered_attempts_fresh syncID retriedAfterLoss _ (by decide) rfl⟩

end Wireops.Sync.Retry
