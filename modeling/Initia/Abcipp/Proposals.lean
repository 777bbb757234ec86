import Initia.Abcipp.Query

/-!
# Proposal handlers

`PrepareProposalHandler` walks `Select` greedily: a tx that would overflow the block's
byte or gas budget blocks its sender for the rest of the pass (and is dropped from the
mempool when it alone exceeds the budget), a tx the ante handler rejects is dropped, and
every other tx is included with its ante writes kept. `ProcessProposalHandler` decodes the
proposal and replays the same budget and ante checks in order, rejecting at the first
failure.

The ante handler runs on cached chain state `σ` (`CacheContext`, with `write()` on
success). Budgets use Go's types: the byte total is `int64`, the gas total `uint64`.
Panics are not modelled: the model's ante handler and decoder are total.

Source: `abcipp/proposals.go`.
-/

namespace Initia.Abcipp

/-- `abci.RequestPrepareProposal` and `abci.RequestProcessProposal`, as far as read. -/
structure ProposalRequest where
  height : Int64
  txs : List Bytes

/-- `abci.ResponseProcessProposal_ProposalStatus`. -/
inductive ProposalStatus
  | accept
  | reject
  deriving DecidableEq, Repr

variable {Tx σ : Type}

/-- The accumulator of the prepare loop. -/
structure PrepareState (Tx σ : Type) where
  chain : σ
  totalSize : Int64
  totalGas : UInt64
  txsToInclude : List Bytes
  txsToRemove : List (TxInfoEntry Tx)
  blockedSenders : List String

/-- One iteration of the prepare loop, on budgets `maxBlockSize` and `maxGasLimit` (zero
when the context has no block params). -/
def prepareStep (ante : AnteHandler σ Tx) (maxBlockSize maxGasLimit : Int64)
    (st : PrepareState Tx σ) (entry : TxInfoEntry Tx) : PrepareState Tx σ :=
  let info := entry.info
  if info.sender ∈ st.blockedSenders then st
  else if maxBlockSize > 0 ∧ st.totalSize + info.size > maxBlockSize then
    -- an individually oversized tx can never fit; a cumulative overflow only blocks
    { st with
      txsToRemove := if info.size > maxBlockSize then st.txsToRemove ++ [entry]
        else st.txsToRemove
      blockedSenders := st.blockedSenders ++ [info.sender] }
  else if maxGasLimit > 0 ∧ st.totalGas + info.gasLimit > maxGasLimit.toUInt64 then
    { st with
      txsToRemove := if info.gasLimit > maxGasLimit.toUInt64 then st.txsToRemove ++ [entry]
        else st.txsToRemove
      blockedSenders := st.blockedSenders ++ [info.sender] }
  else
    match ante st.chain entry.tx with
    | .error _ => { st with txsToRemove := st.txsToRemove ++ [entry] }
    | .ok chain =>
      { st with
        chain := chain
        totalSize := st.totalSize + info.size
        totalGas := st.totalGas + info.gasLimit
        txsToInclude := st.txsToInclude ++ [info.txBytes] }

/-- The budgets `(maxBlockSize, maxGasLimit)` of a context. -/
def blockBudgets (block : Option BlockParams) : Int64 × Int64 :=
  match block with
  | some block => (block.maxBytes, block.maxGas)
  | none => (0, 0)

/-- `PrepareProposalHandler` on the mempool `p` and chain state `chain`: the proposal and
the mempool after the rejected txs are removed (only those still present unchanged, as
their hash at `(sender, sequence)` shows). `none` when a removal does not return. -/
def prepareProposalHandler (I : TxInterface Tx) (txHash : Bytes → String)
    (ante : AnteHandler σ Tx) (p : PriorityMempool Tx) (chain : σ)
    (block : Option BlockParams) (req : ProposalRequest) :
    Option (List Bytes × PriorityMempool Tx) :=
  if req.height ≤ 1 then some (req.txs, p)
  else
    let (maxBlockSize, maxGasLimit) := blockBudgets block
    let st := p.select.foldl (prepareStep ante maxBlockSize maxGasLimit)
      ⟨chain, 0, 0, [], [], []⟩
    let removal := st.txsToRemove.foldlM (fun p entry =>
        if p.lookup txHash entry.info.sender entry.info.sequence = some (txHash entry.info.txBytes)
        then (p.removeWithReason I entry.tx .anteRejectedInPrepare).map Prod.snd
        else some p) p
    removal.map fun p => (st.txsToInclude, p)

/-- One iteration of the process loop over a decoded tx and its bytes: the running gas
and byte totals and the chain state, or `none` to reject. -/
def processStep (I : TxInterface Tx) (ante : AnteHandler σ Tx) (maxBlockSize maxGasLimit : Int64)
    (acc : UInt64 × Int64 × σ) (item : Tx × Bytes) : Option (UInt64 × Int64 × σ) :=
  let (totalGas, totalTxBytes, chain) := acc
  let (tx, txBytes) := item
  match I.feeGas tx with
  | none => none
  | some gas =>
    if maxGasLimit > 0 ∧ totalGas + gas > maxGasLimit.toUInt64 then none
    else
      let size := Int64.ofNat txBytes.length
      if maxBlockSize > 0 ∧ totalTxBytes + size > maxBlockSize then none
      else
        match ante chain tx with
        | .error _ => none
        | .ok chain => some (totalGas + gas, totalTxBytes + size, chain)

/-- `GetDecodedTxs`: all or nothing. -/
def getDecodedTxs (decode : Bytes → Except String Tx) (txs : List Bytes) :
    Except String (List Tx) :=
  txs.mapM decode

/-- `ProcessProposalHandler`. -/
def processProposalHandler (I : TxInterface Tx) (decode : Bytes → Except String Tx)
    (ante : AnteHandler σ Tx) (chain : σ) (block : Option BlockParams)
    (req : ProposalRequest) : ProposalStatus :=
  if req.height ≤ 1 then .accept
  else
    match getDecodedTxs decode req.txs with
    | .error _ => .reject
    | .ok decodedTxs =>
      let (maxBlockSize, maxGasLimit) := blockBudgets block
      match (decodedTxs.zip req.txs).foldlM (processStep I ante maxBlockSize maxGasLimit)
          (0, 0, chain) with
      | some _ => .accept
      | none => .reject

end Initia.Abcipp
