import Initia.Abcipp.Promote
import Initia.Lib.Fold

/-!
# The mempool as a state machine

The calls that change the pool: `Insert`, `RemoveWithReason` (and `Remove`, its commit
case), `PromoteQueued` and the background `cleanUpEntries`. Each call carries what it
reads from its caller: the account keeper at the call's context, the context itself, the
ante handler and its chain state, the clock and the order in which it meets Go's map keys.
A call that does not return (`none`) ends the run.

The reachable states are those a fresh pool reaches by finitely many calls; the
invariants of later modules are proved over them, one call at a time.
-/

namespace Initia.Abcipp

/-- A call that changes the mempool, with its inputs. `σ` is the chain state the ante
handler runs on. -/
inductive MempoolCall (Tx σ : Type)
  | insert (ak : AccountKeeper) (ctx : SdkContext) (tx : Tx)
  | removeWithReason (tx : Tx) (reason : RemovalReason)
  | promoteQueued (ak : AccountKeeper) (ctx : SdkContext) (visit : List String)
  | cleanUpEntries (ak : AccountKeeper) (ante : Option (AnteHandler σ Tx)) (simulate : Option σ)
      (now : Int) (visitSenders visit : List String)

namespace PriorityMempool

variable {Tx σ : Type}

/-- The pool after one call, or `none` when the call does not return. -/
def step (I : TxInterface Tx) (p : PriorityMempool Tx) :
    MempoolCall Tx σ → Option (PriorityMempool Tx)
  | .insert ak ctx tx => (p.insert I ak ctx tx).map Prod.snd
  | .removeWithReason tx reason => (p.removeWithReason I tx reason).map Prod.snd
  | .promoteQueued ak ctx visit => p.promoteQueued ak ctx visit
  | .cleanUpEntries ak ante simulate now visitSenders visit =>
    p.cleanUpEntries I ak ante simulate now visitSenders visit

/-- The pool after a sequence of calls, or `none` when one of them does not return. -/
def run (I : TxInterface Tx) (p : PriorityMempool Tx) (calls : List (MempoolCall Tx σ)) :
    Option (PriorityMempool Tx) :=
  calls.foldlM (fun p call => p.step I call) p

/-- The states a fresh pool reaches by finitely many calls that return. -/
inductive Reachable (I : TxInterface Tx) (cfg : PriorityMempoolConfig Tx)
    (hasEventCh hasAppEventCh : Bool) (σ : Type) : PriorityMempool Tx → Prop
  | new : Reachable I cfg hasEventCh hasAppEventCh σ (new cfg hasEventCh hasAppEventCh)
  | step {p p' : PriorityMempool Tx} (call : MempoolCall Tx σ) :
      Reachable I cfg hasEventCh hasAppEventCh σ p → p.step I call = some p' →
      Reachable I cfg hasEventCh hasAppEventCh σ p'

/-- An invariant that holds of a fresh pool and survives every call holds of every
reachable state. -/
theorem Reachable.rec_invariant {I : TxInterface Tx} {cfg : PriorityMempoolConfig Tx}
    {hasEventCh hasAppEventCh : Bool} (inv : PriorityMempool Tx → Prop)
    (h0 : inv (PriorityMempool.new cfg hasEventCh hasAppEventCh))
    (hstep : ∀ (p p' : PriorityMempool Tx) (call : MempoolCall Tx σ), inv p →
      p.step I call = some p' → inv p')
    {p : PriorityMempool Tx} (hp : Reachable I cfg hasEventCh hasAppEventCh σ p) : inv p := by
  induction hp with
  | new => exact h0
  | step call _ hcall ih => exact hstep _ _ call ih hcall

/-- A run from a reachable state ends in a reachable state. -/
theorem Reachable.run {I : TxInterface Tx} {cfg : PriorityMempoolConfig Tx}
    {hasEventCh hasAppEventCh : Bool} {p p' : PriorityMempool Tx}
    (hp : Reachable I cfg hasEventCh hasAppEventCh σ p) {calls : List (MempoolCall Tx σ)}
    (h : p.run I calls = some p') : Reachable I cfg hasEventCh hasAppEventCh σ p' :=
  List.foldlM_option_rec (Reachable I cfg hasEventCh hasAppEventCh σ) hp
    (fun _ hq call _ _ hs => .step call hq hs) h

end PriorityMempool

end Initia.Abcipp
