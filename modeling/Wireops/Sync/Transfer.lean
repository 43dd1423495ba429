import Wireops.Channel.Quiet

namespace Wireops.Sync.Transfer

open Bool Option Protocol Lib.Steps Server Server.Addresses Worker
open Worker.Results Channel Channel.Deliveries Channel.Origin
open Channel.Quiet
open Channel.Model (online sent executed cached answered)

variable (stackID : String)

def cleanupID : String := "teardown-cleanup-" ++ stackID

def transferID : String := "teardown-transfer-" ++ stackID

def migrateID : String := "migrate-teardown-" ++ stackID

def teardownID (stackID id : String) : Bool :=
  id = cleanupID stackID || id = transferID stackID || id = migrateID stackID

def deploysStack : Command → Bool
  | .deploy c | .redeploy c => c.stackID = stackID
  | _ => false

def tearsDown : Command → Bool
  | .teardown c => c.stackID = stackID
  | _ => false

/-- What holds the lock of the stack, and where it is. `sync` is any of the
flows that deploy to the stack's own worker. -/
inductive Op where
  | sync (workerID : String)
  | syncWait (workerID : String) (call : Nat)
  | transfer (source target : String)
  | deployWait (source target : String) (call : Nat)
  | failed (target : String)
  | cleanupWait (target : String) (call : Nat)
  | deployed (source target : String)
  | teardownWait (source target : String) (call : Nat)
  | complete (target : String)
  | migrate (workerID : String) (deployedVersion : Nat)
  | migrateWait (workerID : String) (call : Nat)
  | repoint
  deriving DecidableEq

structure State where
  channel : Model.State := {}
  worker : String
  deployedVersion : Nat
  op : Option Op := none

/-- A migration goes by the record its route read before it took the lock.
`abort` is an error before anything was dispatched. -/
inductive Action where
  | channel (a : Model.Action)
  | assign (workerID : String)
  | sync
  | deploy (cmd : Command)
  | settle
  | unlock (deployedVersion : Nat)
  | transfer (target : String)
  | transferDeploy (cmd : DeployCommand)
  | migrate (workerID : String) (deployedVersion : Nat) (teardownOldProject : Bool)
  | abort
  | tearDown
  | finish (saved : Bool)
  deriving DecidableEq, Repr

/-- Deploys of the stack, and commands under the ids of its teardowns, are sent
by the holder of its lock only. -/
def foreign : Model.Action → Bool
  | .server (.dispatch _ cmd) => !deploysStack stackID cmd && !teardownID stackID cmd.commandID
  | _ => true

def State.connected (s : State) (workerID : String) : Bool :=
  (s.channel.server.connections workerID).isSome

def succeeded : Dispatch.Reply → Bool
  | .result r => r.error = ""
  | .error _ => false

def waiting : Op → Option (Nat × (Dispatch.Reply → Option Op))
  | .syncWait workerID k => some (k, fun _ => some (.sync workerID))
  | .deployWait source target k =>
    some (k, fun reply => some (if succeeded reply then .deployed source target else .failed target))
  | .cleanupWait _ k => some (k, fun _ => none)
  | .teardownWait _ target k => some (k, fun _ => some (.complete target))
  | .migrateWait _ k => some (k, fun reply => if succeeded reply then some .repoint else none)
  | _ => none

def teardownOf (s : State) : Op → Option (String × String × (Nat → Op))
  | .failed target =>
    if s.connected target then some (target, cleanupID stackID, .cleanupWait target) else none
  | .deployed source target =>
    if source ≠ "" ∧ s.connected source then
      some (source, transferID stackID, .teardownWait source target)
    else none
  | .migrate workerID deployedVersion =>
    if deployedVersion = 0 then none
    else some (workerID, migrateID stackID, .migrateWait workerID)
  | _ => none

def withoutTeardown : Op → Option (Option Op)
  | .failed _ => some none
  | .deployed _ target => some (some (.complete target))
  | .migrate _ _ => some (some .repoint)
  | _ => none

def dispatch (s : State) (workerID : String) (cmd : Command) (next : Nat → Op) : Option State :=
  (Model.step s.channel (.server (.dispatch workerID cmd))).map
    (fun ch => { s with channel := ch, op := some (next s.channel.server.nextCall) })

def reply (s : State) (k : Nat) : Option Dispatch.Reply := do
  let c ← s.channel.server.calls k
  match c.phase with
  | .returned reply => some reply
  | _ => none

def step (stackID : String) (s : State) : Action → Option State
  | .channel a =>
    if foreign stackID a then (Model.step s.channel a).map (fun ch => { s with channel := ch })
    else none
  | .assign workerID => some { s with worker := workerID }
  | .sync => if s.op = none then some { s with op := some (.sync s.worker) } else none
  | .deploy cmd =>
    match s.op with
    | some (.sync workerID) =>
      if deploysStack stackID cmd && !teardownID stackID cmd.commandID then
        dispatch s workerID cmd (.syncWait workerID)
      else none
    | _ => none
  | .settle => do
    let op ← s.op
    let (k, next) ← waiting op
    let r ← reply s k
    some { s with op := next r }
  | .unlock deployedVersion =>
    match s.op with
    | some (.sync _) => some { s with deployedVersion, op := none }
    | _ => none
  | .transfer target =>
    if s.op = none ∧ s.worker ≠ "" ∧ s.worker ≠ target ∧ s.deployedVersion ≠ 0 then
      some { s with op := some (.transfer s.worker target) }
    else none
  | .transferDeploy cmd =>
    match s.op with
    | some (.transfer source target) =>
      if deploysStack stackID (.deploy cmd) && !teardownID stackID cmd.commandID then
        dispatch s target (.deploy cmd) (.deployWait source target)
      else none
    | _ => none
  | .migrate workerID deployedVersion teardownOldProject =>
    if s.op = none then
      some { s with
        op := some (if teardownOldProject then .migrate workerID deployedVersion else .repoint) }
    else none
  | .abort =>
    match s.op with
    | some (.transfer _ _) | some (.migrate _ _) => some { s with op := none }
    | _ => none
  | .tearDown => do
    let op ← s.op
    match teardownOf stackID s op with
    | some (workerID, id, next) => dispatch s workerID (.teardown ⟨id, "", stackID⟩) next
    | none => (withoutTeardown op).map (fun op => { s with op := op })
  | .finish saved =>
    match s.op with
    | some (.complete target) => some { s with worker := if saved then target else s.worker, op := none }
    | some .repoint => some { s with op := none }
    | _ => none

def tearing : Op → Option (String × Nat)
  | .cleanupWait workerID k | .teardownWait workerID _ k | .migrateWait workerID k => some (workerID, k)
  | _ => none

variable {stackID : String} {s t : State} {a : Action}

/-- The holder of the lock moves by itself, deploys or tears down, or the
channel moves under it. -/
inductive Fires (stackID : String) (s : State) : Action → State → Prop where
  | channel {a : Model.Action} {ch : Model.State} (hf : foreign stackID a = true)
    (h : Model.step s.channel a = some ch) : Fires stackID s (.channel a) { s with channel := ch }
  | deploy {a : Action} {workerID : String} {cmd : Command} {op : Op} {ch : Model.State}
    (h : Model.step s.channel (.server (.dispatch workerID cmd)) = some ch)
    (hid : teardownID stackID cmd.commandID = false) (hop : tearing op = none) :
    Fires stackID s a { s with channel := ch, op := some op }
  | tearDown {op : Op} {workerID id : String} {next : Nat → Op} {ch : Model.State}
    (hop : s.op = some op) (ht : teardownOf stackID s op = some (workerID, id, next))
    (h : Model.step s.channel (.server (.dispatch workerID (.teardown ⟨id, "", stackID⟩))) = some ch) :
    Fires stackID s .tearDown { s with channel := ch, op := some (next s.channel.server.nextCall) }
  | local_ {a : Action} {t : State} (hch : t.channel = s.channel)
    (hop : ∀ op, t.op = some op → s.op = some op ∨ tearing op = none) : Fires stackID s a t

theorem waiting_leads {op op' : Op} {k : Nat} {next : Dispatch.Reply → Option Op}
    (h : waiting op = some (k, next)) {r : Dispatch.Reply} (hn : next r = some op') : tearing op' = none := by
  cases op with
  | syncWait | teardownWait =>
    cases h
    cases hn
    rfl
  | cleanupWait =>
    cases h
    cases hn
  | deployWait =>
    cases h
    cases hn
    split <;> rfl
  | migrateWait =>
    cases h
    dsimp only at hn
    split at hn <;> cases hn
    rfl
  | _ => cases h

theorem withoutTeardown_leads {op op' : Op} (h : withoutTeardown op = some (some op')) : tearing op' = none := by
  cases op with
  | deployed | migrate =>
    cases h
    rfl
  | _ => cases h

theorem step_fires (h : step stackID s a = some t) : Fires stackID s a t := by
  cases a with
  | channel a =>
    obtain ⟨hf, h⟩ := ite_none_right_eq_some.mp h
    obtain ⟨ch, hch, rfl⟩ := map_eq_some_iff.mp h
    exact .channel hf hch
  | assign workerID =>
    cases h
    exact .local_ rfl (fun _ h => .inl h)
  | sync | transfer target =>
    obtain ⟨_, ⟨⟩⟩ := ite_none_right_eq_some.mp h
    refine .local_ rfl ?_
    rintro op ⟨rfl⟩
    exact .inr rfl
  | migrate workerID version teardownOldProject =>
    obtain ⟨_, ⟨⟩⟩ := ite_none_right_eq_some.mp h
    refine .local_ rfl ?_
    rintro op ⟨rfl⟩
    cases teardownOldProject <;> exact .inr rfl
  | deploy cmd | transferDeploy cmd =>
    simp only [step] at h
    split at h
    · split at h
      · next hc =>
        obtain ⟨ch, hch, rfl⟩ := map_eq_some_iff.mp h
        simp only [and_eq_true, not_eq_true'] at hc
        exact .deploy hch hc.2 rfl
      · cases h
    · cases h
  | settle =>
    obtain ⟨op, _, h⟩ := bind_eq_some_iff.mp h
    obtain ⟨⟨k, next⟩, hw, h⟩ := bind_eq_some_iff.mp h
    obtain ⟨r, _, h⟩ := bind_eq_some_iff.mp h
    cases h
    exact .local_ rfl (fun op' h => .inr (waiting_leads hw h))
  | unlock | abort | finish =>
    simp only [step] at h
    split at h <;> cases h <;> exact .local_ rfl nofun
  | tearDown =>
    obtain ⟨op, hop, h⟩ := bind_eq_some_iff.mp h
    split at h
    · next ht =>
      obtain ⟨ch, hch, rfl⟩ := map_eq_some_iff.mp h
      exact .tearDown hop ht hch
    · obtain ⟨op', hop', rfl⟩ := map_eq_some_iff.mp h
      refine .local_ rfl ?_
      rintro op ⟨rfl⟩
      exact .inr (withoutTeardown_leads hop')

def Misused (stackID : String) (c : Command) : Prop :=
  teardownID stackID c.commandID = true ∧ tearsDown stackID c = false

theorem stable_misused (stackID : String) : Stable (Misused stackID) := by
  rintro m c ⟨hid, ht⟩
  rw [withDispatchMessageID_commandID] at hid
  refine ⟨hid, ?_⟩
  cases c <;> exact ht

theorem stable_deploysStack (stackID : String) : Stable (fun c => deploysStack stackID c = true) := by
  intro m c h
  cases c <;> exact h

/-- What holds while a teardown of the stack is awaited: the worker has begun
the last of its deploys. -/
structure Awaited (stackID : String) (ch : Model.State) (workerID : String) (k : Nat) : Prop where
  call : ∃ c, ch.server.calls k = some c ∧ c.workerID = workerID ∧ teardownID stackID c.cmd.commandID = true
  settled : ¬ Outstanding ch workerID (fun c => deploysStack stackID c = true)
  before : ∀ e x, (ch.worker workerID).execs e = some x → deploysStack stackID x.cmd = true → e < ch.begun k

structure Inv (stackID : String) (s : State) : Prop where
  traced : Traced (fun id => teardownID stackID id = true) True s.channel
  present : Present s.channel
  proper : ∀ v, ¬ Outstanding s.channel v (Misused stackID)
  execs : ∀ v e x, (s.channel.worker v).execs e = some x → ¬ Misused stackID x.cmd
  awaited : ∀ op workerID k, s.op = some op → tearing op = some (workerID, k) → Awaited stackID s.channel workerID k

/-- No earlier answer under the id is to be had from any worker, and no deploy
of the stack is left to begin on this one. -/
def ready (stackID : String) (ch : Model.State) (workerID id : String) : Bool :=
  !live (ch.worker workerID) id &&
    !outstanding ch (fun v c =>
      if v = workerID then deploysStack stackID c else c.commandID = id) &&
    !unreported ch (fun v i => v ≠ workerID && i = id)

structure Ready (stackID : String) (ch : Model.State) (workerID id : String) : Prop where
  clear : Clear ch workerID id
  settled : ¬ Outstanding ch workerID (fun c => deploysStack stackID c = true)

theorem ready_spec {ch : Model.State} {workerID id : String} (hs : Sound ch) (hp : Present ch)
    (h : ready stackID ch workerID id = true) : Ready stackID ch workerID id := by
  simp only [ready, and_eq_true, not_eq_true'] at h
  obtain ⟨⟨hlive, hout⟩, hrep⟩ := h
  have hnot := not_outstanding hs hp hout
  refine ⟨⟨not_live (hs.labelled workerID) hlive, ?_⟩, ?_⟩
  · rintro w hne (ho | ⟨m, hm, hid⟩)
    · refine hnot w (ho.mono (fun c hc => ?_))
      rw [if_neg hne]
      exact decide_eq_true hc
    · have h := not_unreported hs hp hrep hm
      rw [hid, decide_eq_true hne, decide_eq_true rfl] at h
      cases h
  · intro ho
    refine hnot workerID (ho.mono (fun c hc => ?_))
    rw [if_pos rfl]
    exact hc

/-- The condition: a teardown is dispatched only where its answer can be no
other one's and nothing can deploy the stack behind it. -/
def Undisturbed (stackID : String) (s : State) : Action → Prop
  | .tearDown => ∀ op ∈ s.op, ∀ d ∈ teardownOf stackID s op, ready stackID s.channel d.1 d.2.1 = true
  | _ => True

instance (s : State) (a : Action) : Decidable (Undisturbed stackID s a) := by
  unfold Undisturbed
  split <;> infer_instance

variable {ch ch' : Model.State} {b : Model.Action}

theorem proper_step (hs : Sound ch) (h : Model.Fires ch b ch') (hp : ∀ v, ¬ Outstanding ch v (Misused stackID))
    (hx : ∀ v e x, (ch.worker v).execs e = some x → ¬ Misused stackID x.cmd)
    (hb : ∀ v cmd, b = .server (.dispatch v cmd) → ¬ Misused stackID cmd) :
    (∀ v, ¬ Outstanding ch' v (Misused stackID)) ∧
      ∀ v e x, (ch'.worker v).execs e = some x → ¬ Misused stackID x.cmd := by
  refine ⟨fun v ho => ?_, fun v e x he hm => ?_⟩
  · obtain ho | ⟨cmd, hcmd, hm⟩ := fires_outstanding hs (stable_misused stackID) h ho
    · exact hp v ho
    · exact hb v cmd hcmd hm
  · obtain ⟨y, hy, hcmd⟩ | ho := fires_execs h he
    · exact hx v e y hy (hcmd ▸ hm)
    · exact hp v (ho _ hm)

theorem Awaited.step {workerID : String} {k : Nat}
    (hs : Sound ch) (h : Model.Fires ch b ch') (hk : Awaited stackID ch workerID k)
    (hb : ∀ cmd, b = .server (.dispatch workerID cmd) → deploysStack stackID cmd = false) :
    Awaited stackID ch' workerID k := by
  obtain ⟨c, hc, hw, hid⟩ := hk.call
  refine ⟨?_, ?_, ?_⟩
  · obtain ⟨c', hc', hw', hcmd⟩ := fires_call_kept hs h hc
    exact ⟨c', hc', hw'.trans hw, hcmd ▸ hid⟩
  · intro ho
    obtain ho | ⟨cmd, hcmd, hd⟩ := fires_outstanding hs (stable_deploysStack stackID) h ho
    · exact hk.settled ho
    · rw [hb cmd hcmd] at hd
      cases hd
  · intro e x hx hd
    rw [fires_begun h (call_ne_nextCall hs hc)]
    obtain ⟨y, hy, hcmd⟩ | ho := fires_execs h hx
    · exact hk.before e y hy (hcmd ▸ hd)
    · exact absurd (ho _ hd) hk.settled

theorem awaited_dispatch {workerID id : String} (hs : Sound ch)
    (hid : teardownID stackID id = true) (hr : Ready stackID ch workerID id)
    (h : Model.step ch (.server (.dispatch workerID (.teardown ⟨id, "", stackID⟩))) = some ch') :
    Awaited stackID ch' workerID ch.server.nextCall := by
  have hf := Model.step_fires h
  refine ⟨?_, ?_, ?_⟩
  · obtain ⟨c, hc, hw, hcmd⟩ := dispatch_made h
    exact ⟨c, hc, hw, by rw [hcmd]; exact hid⟩
  · intro ho
    obtain ho | ⟨cmd, hcmd, hd⟩ := fires_outstanding hs (stable_deploysStack stackID) hf ho
    · exact hr.settled ho
    · cases hcmd
      cases hd
  · intro e x hx _
    obtain ⟨hw, hb⟩ := dispatch_begun h
    rw [hw] at hx
    rw [hb]
    by_contra hge
    rw [(hs.labelled workerID).nextExec e (by omega)] at hx
    cases hx

theorem guard_of {watch : String → Prop} {ch : Model.State}
    (h : ∀ v cmd, b = .server (.dispatch v cmd) → watch cmd.commandID → Clear ch v cmd.commandID) :
    Guard watch True ch b := by
  cases b with
  | server b =>
    cases b with
    | dispatch v cmd => exact h v cmd rfl
    | _ => trivial
  | deliver n draining =>
    cases draining with
    | none => trivial
    | some d => exact fun _ _ _ => trivial
  | work => trivial
  | report => trivial

theorem Inv.advance (hs : Inv stackID s) {ch : Model.State} {op : Option Op} (h : Model.step s.channel b = some ch)
    (hb : ∀ v cmd, b = .server (.dispatch v cmd) → teardownID stackID cmd.commandID = true →
      tearsDown stackID cmd = true ∧ Clear s.channel v cmd.commandID)
    (hop : ∀ o workerID k, op = some o → tearing o = some (workerID, k) → Awaited stackID ch workerID k) :
    Inv stackID { s with channel := ch, op := op } := by
  have hf := Model.step_fires h
  have hsound := hs.traced.sound
  obtain ⟨hp, hx⟩ := proper_step hsound hf hs.proper hs.execs (fun v cmd he hm => by
    have ht := (hb v cmd he hm.1).1
    rw [hm.2] at ht
    cases ht)
  refine ⟨?_, fires_present hsound hs.present hf, hp, hx, hop⟩
  exact step_traced s.channel b ch hs.traced (guard_of (fun v cmd he hw => (hb v cmd he hw).2)) h

theorem teardownOf_id {op : Op} {workerID id : String} {next : Nat → Op}
    (h : teardownOf stackID s op = some (workerID, id, next)) : teardownID stackID id = true ∧
      ∀ k, tearing (next k) = some (workerID, k) := by
  cases op with
  | failed | deployed | migrate =>
    simp only [teardownOf] at h
    split at h <;> cases h
    exact ⟨by simp [teardownID], fun _ => rfl⟩
  | _ => cases h

theorem step_inv (s : State) (a : Action) (t : State) (hs : Inv stackID s)
    (hg : Undisturbed stackID s a) (h : step stackID s a = some t) : Inv stackID t := by
  have hsound := hs.traced.sound
  cases step_fires h with
  | @channel b ch hf hch =>
    refine hs.advance hch ?_ ?_
    · rintro v cmd rfl hid
      simp only [foreign, and_eq_true, not_eq_true'] at hf
      rw [hf.2] at hid
      cases hid
    · intro op workerID k hop ht
      refine Awaited.step hsound (Model.step_fires hch) (hs.awaited op workerID k hop ht) ?_
      rintro cmd rfl
      simp only [foreign, and_eq_true, not_eq_true'] at hf
      exact hf.1
  | deploy hch hid hop =>
    refine hs.advance hch ?_ ?_
    · rintro v cmd ⟨rfl⟩ htid
      rw [hid] at htid
      cases htid
    · rintro op workerID k ⟨rfl⟩ ht
      rw [hop] at ht
      cases ht
  | tearDown hop ht hch =>
    have hr := ready_spec hsound hs.present (hg _ hop _ ht)
    obtain ⟨hid, hnext⟩ := teardownOf_id ht
    refine hs.advance hch ?_ ?_
    · rintro v cmd ⟨rfl⟩ _
      exact ⟨by simp [tearsDown], hr.clear⟩
    · rintro op workerID k ⟨rfl⟩ hk
      rw [hnext] at hk
      cases hk
      exact awaited_dispatch hsound hid hr hch
  | local_ hch hop =>
    refine ⟨hch ▸ hs.traced, hch ▸ hs.present, hch ▸ hs.proper, hch ▸ hs.execs, ?_⟩
    intro op workerID k ho ht
    obtain ho | hn := hop op ho
    · exact hch ▸ hs.awaited op workerID k ho ht
    · rw [hn] at ht
      cases ht

def start (worker : String) (deployedVersion : Nat) : State := { worker, deployedVersion }

theorem inv_start (stackID worker : String) (deployedVersion : Nat) : Inv stackID (start worker deployedVersion) where
  traced := traced_init _ _
  present := present_init
  proper v ho := by
    cases ho with
    | due hd =>
      cases hd with
      | called hc => cases hc
      | listed hl => cases hl
      | queued hx => cases hx
    | written hn =>
      obtain ⟨x, hx, _⟩ := hn
      cases hx
    | handled hc => cases hc
  execs _ _ _ h := nomatch h
  awaited _ _ _ h := nomatch h

/-- The teardown the holder of the lock is told has succeeded was executed, and
began after every deploy of the stack on that worker. -/
def TornDown (stackID : String) (s : State) : Prop :=
  ∀ op workerID k c r, s.op = some op → tearing op = some (workerID, k) →
    s.channel.server.calls k = some c → taken c.phase = some r → r.error = "" →
    ∃ e x at_, (s.channel.worker workerID).execs e = some x ∧ tearsDown stackID x.cmd = true ∧
      x.finished = some (at_, r) ∧ ∀ e' x', (s.channel.worker workerID).execs e' = some x' →
        deploysStack stackID x'.cmd = true → e' < e

theorem undisturbed_tornDown {worker : String} {deployedVersion : Nat} {as : List Action} {t : State}
    (hg : Meets (step stackID) (Undisturbed stackID) (start worker deployedVersion) as)
    (hr : run (step stackID) (start worker deployedVersion) as = some t) : TornDown stackID t := by
  have hs := run_invariant step_inv (inv_start stackID worker deployedVersion) hg hr
  intro op workerID k c r hop ht hc htaken herr
  have hk := hs.awaited op workerID k hop ht
  obtain ⟨c', hc', hw, hid⟩ := hk.call
  rw [hc] at hc'
  cases hc'
  obtain ⟨x, _, hsince, hsrc⟩ := (hs.traced.call k c hc hid).used r htaken
  cases x with
  | none =>
    obtain ⟨draining, rfl⟩ := hsrc
    cases draining <;> simp [Handlers.refusal] at herr
  | some e =>
    obtain ⟨_, y, at_, hy, hyid, hf⟩ := hsrc
    rw [hw] at hy
    have hy' : tearsDown stackID y.cmd = true := by
      refine eq_true_of_ne_false (fun hfalse => hs.execs workerID e y hy ⟨?_, hfalse⟩)
      rw [hyid]
      exact hid
    refine ⟨e, y, at_, hy, hy', hf, fun e' x' hx' hd => ?_⟩
    exact Nat.lt_of_lt_of_le (hk.before e' x' hx' hd) hsince

theorem step_sound (s : State) (a : Action) (t : State) (hs : Sound s.channel)
    (h : step stackID s a = some t) : Sound t.channel := by
  cases step_fires h with
  | channel _ hch => exact fires_sound hs (Model.step_fires hch)
  | deploy hch => exact fires_sound hs (Model.step_fires hch)
  | tearDown _ _ hch => exact fires_sound hs (Model.step_fires hch)
  | local_ hch => exact hch ▸ hs

/-- Two transfers to one worker fail: the first deploy is refused, the second
runs. A cleanup follows each. -/
def cleanedUpTwice : List Action :=
  (online "b" 0).map Action.channel ++ [Action.transfer "b", .transferDeploy ⟨"sync-1", "", "s", "c1"⟩] ++
    ([Model.Action.server (.register 0), .server (.send 0 "m1" true), .deliver 0 (some false)] ++
      answered 0 0).map Action.channel ++ [Action.settle, .tearDown] ++
    (sent 0 1 "m2" ++ executed "b" 0 "" ++ answered 0 1).map Action.channel ++
    [Action.settle, .transfer "b", .transferDeploy ⟨"sync-2", "", "s", "c1"⟩] ++
    (sent 0 2 "m3" ++ executed "b" 1 "port is already allocated" ++ answered 0 2).map Action.channel ++
    [Action.settle, .tearDown] ++ (sent 0 3 "m4" ++ cached "b" 2 ++ answered 0 3).map Action.channel

theorem cleanup_answered_from_cache : ∃ t ∈ run (step "s") (start "a" 1) cleanedUpTwice,
    t.op = some (.cleanupWait "b" 3) ∧ (t.channel.worker "b").nextExec = 2 ∧ ¬ TornDown "s" t := by
  have hrun : (run (step "s") (start "a" 1) cleanedUpTwice).any (fun t => decide
      (t.op = some (.cleanupWait "b" 3) ∧ (t.channel.worker "b").nextExec = 2 ∧
      (t.channel.server.calls 3).bind (fun c => taken c.phase) = some ⟨"teardown-cleanup-s", "", "", ""⟩ ∧
      ((t.channel.worker "b").execs 1).any (fun x => deploysStack "s" x.cmd))) = true := by
    decide +kernel
  obtain ⟨t, ht, hfacts⟩ := any_eq_true .. |>.mp hrun
  obtain ⟨hop, hnext, htaken, hdeploy⟩ := of_decide_eq_true hfacts
  refine ⟨t, ht, hop, hnext, fun h => ?_⟩
  obtain ⟨c, hc, hr⟩ := bind_eq_some_iff.mp htaken
  obtain ⟨x', hx', hd⟩ := any_eq_true .. |>.mp hdeploy
  obtain ⟨e, x, _, hx, _, _, hlast⟩ := h _ "b" 3 c _ hop rfl hc hr rfl
  have hlt := hlast 1 x' hx' hd
  have hsound := run_invariant_of_step step_sound sound_init ht
  rw [(hsound.labelled "b").nextExec e (by omega)] at hx
  cases hx

def transferred : List Action :=
  (online "a" 0 ++ online "b" 1).map Action.channel ++
    [Action.transfer "b", .transferDeploy ⟨"sync-1", "", "s", "c1"⟩] ++
    (sent 1 0 "m1" ++ executed "b" 0 "" ++ answered 1 0).map Action.channel ++
    [Action.settle, .tearDown] ++ (sent 0 1 "m2" ++ executed "a" 0 "" ++ answered 0 1).map Action.channel

theorem source_torn_down : ∃ t ∈ run (step "s") (start "a" 1) transferred,
    t.op = some (.teardownWait "a" "b" 1) ∧ (t.channel.server.calls 1).bind (fun c => taken c.phase) =
        some ⟨"teardown-transfer-s", "", "", ""⟩ ∧ TornDown "s" t := by
  have hrun : (run (step "s") (start "a" 1) transferred).any (fun t => decide
      (t.op = some (.teardownWait "a" "b" 1) ∧ (t.channel.server.calls 1).bind (fun c => taken c.phase) =
        some ⟨"teardown-transfer-s", "", "", ""⟩)) = true := by
    decide +kernel
  obtain ⟨t, ht, hfacts⟩ := any_eq_true .. |>.mp hrun
  obtain ⟨hop, htaken⟩ := of_decide_eq_true hfacts
  exact ⟨t, ht, hop, htaken, undisturbed_tornDown (by decide +kernel) ht⟩

end Wireops.Sync.Transfer
