import Initia.Abcipp.Proposals
import Initia.Abcipp.WellFormed

/-!
# The proposer's blocks pass its own `ProcessProposal`

`PrepareProposalHandler` includes a tx only after the same byte and gas checks
`ProcessProposalHandler` makes, in the same running totals, and after the ante handler
accepted it on the state the earlier inclusions wrote; the sizes and gas limits it reads
from `Select` are those of the bytes and of `GetGas`, since every stored entry is well
formed. So the process loop replays the prepare loop step for step, provided decoding a
returned byte string gives back the transaction the mempool stored with it.

The proof runs over the prepare loop: `Agrees` says the process loop, run on what has
been included so far, ends in the prepare loop's totals and chain state.
-/

namespace Initia.Abcipp

variable {Tx σ : Type} {I : TxInterface Tx} {ante : AnteHandler σ Tx}
  {decode : Bytes → Except String Tx} {maxBlockSize maxGasLimit : Int64}

/-! ### What `Select` reports -/

namespace PriorityMempool

theorem mem_select {p : PriorityMempool Tx} {x : TxInfoEntry Tx} (hx : x ∈ p.select) :
    ∃ e v, (e, v) ∈ p.priorityIndex.toList ∧ x.tx = e.tx ∧ x.info.size = e.size ∧
      x.info.gasLimit = e.gas ∧ x.info.txBytes = e.bytes := by
  obtain ⟨⟨e, v⟩, hev, rfl⟩ := List.mem_map.mp hx
  exact ⟨e, v, hev, rfl, rfl, rfl, rfl⟩

/-- In a well-formed pool `Select` reports the length of each tx's bytes and its `GetGas`. -/
theorem WellFormed.select_info {p : PriorityMempool Tx} (h : p.WellFormed I)
    {x : TxInfoEntry Tx} (hx : x ∈ p.select) :
    x.info.size = Int64.ofNat x.info.txBytes.length ∧ I.feeGas x.tx = some x.info.gasLimit := by
  obtain ⟨e, v, hev, htx, hsize, hgas, hbytes⟩ := mem_select hx
  have he := (h.index e v hev).1
  rw [htx, hsize, hgas, hbytes]
  exact ⟨he.size_eq, he.feeGas_eq⟩

end PriorityMempool

/-! ### The prepare loop against the process loop -/

/-- Running the process loop on what the prepare loop has included so far, from the
starting chain state `chain`, ends in the prepare loop's totals and chain state. -/
def Agrees (I : TxInterface Tx) (decode : Bytes → Except String Tx) (ante : AnteHandler σ Tx)
    (maxBlockSize maxGasLimit : Int64) (chain : σ) (st : PrepareState Tx σ) : Prop :=
  ∃ txs, st.txsToInclude.mapM decode = .ok txs ∧ txs.length = st.txsToInclude.length ∧
    (txs.zip st.txsToInclude).foldlM (processStep I ante maxBlockSize maxGasLimit) (0, 0, chain) =
      some (st.totalGas, st.totalSize, st.chain)

/-- A prepare step that leaves the proposal, the totals and the chain state as they were. -/
def PrepareState.Keeps (st st' : PrepareState Tx σ) : Prop :=
  st'.txsToInclude = st.txsToInclude ∧ st'.totalSize = st.totalSize ∧
    st'.totalGas = st.totalGas ∧ st'.chain = st.chain

/-- What one prepare step can do: skip the tx (blocked, over a budget, or rejected by the
ante handler), or include it after both budget checks pass and the ante handler accepts
it. -/
theorem prepareStep_cases (ante : AnteHandler σ Tx) (maxBlockSize maxGasLimit : Int64)
    (st : PrepareState Tx σ) (x : TxInfoEntry Tx) :
    st.Keeps (prepareStep ante maxBlockSize maxGasLimit st x) ∨
    (¬(maxBlockSize > 0 ∧ st.totalSize + x.info.size > maxBlockSize) ∧
      ¬(maxGasLimit > 0 ∧ st.totalGas + x.info.gasLimit > maxGasLimit.toUInt64) ∧
      ∃ chain', ante st.chain x.tx = .ok chain' ∧
        prepareStep ante maxBlockSize maxGasLimit st x =
          { st with
            chain := chain'
            totalSize := st.totalSize + x.info.size
            totalGas := st.totalGas + x.info.gasLimit
            txsToInclude := st.txsToInclude ++ [x.info.txBytes] }) := by
  unfold prepareStep
  dsimp only
  split_ifs
  -- blocked or over a budget: every such branch only records the sender or the tx
  all_goals try exact .inl ⟨rfl, rfl, rfl, rfl⟩
  cases hante : ante st.chain x.tx with
  | error e => exact .inl (by simp [PrepareState.Keeps])
  | ok chain' => exact .inr ⟨by assumption, by assumption, chain', rfl, by simp⟩

/-- The prepare loop only appends to its proposal. -/
theorem txsToInclude_isPrefix_foldl_prepareStep (l : List (TxInfoEntry Tx))
    (st : PrepareState Tx σ) :
    st.txsToInclude <+: (l.foldl (prepareStep ante maxBlockSize maxGasLimit) st).txsToInclude := by
  induction l generalizing st with
  | nil => exact List.prefix_refl _
  | cons x l ih =>
    refine List.IsPrefix.trans ?_ (ih _)
    rcases prepareStep_cases ante maxBlockSize maxGasLimit st x with
      ⟨hinc, -⟩ | ⟨-, -, _, -, hst⟩
    · rw [hinc]
    · rw [hst]
      exact List.prefix_append _ _

theorem agrees_start (chain : σ) :
    Agrees I decode ante maxBlockSize maxGasLimit chain ⟨chain, 0, 0, [], [], []⟩ :=
  ⟨[], rfl, rfl, rfl⟩

/-- One prepare step keeps the loops in step: a skipped tx changes neither, an included one
passes every check of `processStep` on the same totals and chain state. -/
theorem Agrees.step {chain : σ} {st : PrepareState Tx σ}
    (h : Agrees I decode ante maxBlockSize maxGasLimit chain st) {x : TxInfoEntry Tx}
    (hsize : x.info.size = Int64.ofNat x.info.txBytes.length)
    (hgas : I.feeGas x.tx = some x.info.gasLimit)
    (hdecode : x.info.txBytes ∈ (prepareStep ante maxBlockSize maxGasLimit st x).txsToInclude →
      decode x.info.txBytes = .ok x.tx) :
    Agrees I decode ante maxBlockSize maxGasLimit chain
      (prepareStep ante maxBlockSize maxGasLimit st x) := by
  obtain ⟨txs, hdec, hlen, hrun⟩ := h
  rcases prepareStep_cases ante maxBlockSize maxGasLimit st x with
    ⟨hinc, hsz, hg, hch⟩ | ⟨hbytes, hgasLimit, chain', hante, hst⟩
  · exact ⟨txs, hinc ▸ hdec, hinc ▸ hlen, by rw [hinc, hsz, hg, hch]; exact hrun⟩
  · rw [hst] at hdecode ⊢
    have hx := hdecode (List.mem_append_right _ (List.mem_singleton_self _))
    refine ⟨txs ++ [x.tx], ?_, by simp [hlen], ?_⟩
    · simp only [List.mapM_append, hdec, List.mapM_cons, List.mapM_nil, hx]
      rfl
    · rw [List.zip_append hlen, List.foldlM_append, hrun]
      simp [processStep, hgas, ← hsize, hbytes, hgasLimit, hante]

/-- The loops stay in step over a whole snapshot of consistent entries whose included byte
strings decode to their txs. -/
theorem Agrees.run {chain : σ} {l : List (TxInfoEntry Tx)} {st : PrepareState Tx σ}
    (h : Agrees I decode ante maxBlockSize maxGasLimit chain st)
    (hinfo : ∀ x ∈ l, x.info.size = Int64.ofNat x.info.txBytes.length ∧
      I.feeGas x.tx = some x.info.gasLimit)
    (hdecode : ∀ x ∈ l,
      x.info.txBytes ∈ (l.foldl (prepareStep ante maxBlockSize maxGasLimit) st).txsToInclude →
        decode x.info.txBytes = .ok x.tx) :
    Agrees I decode ante maxBlockSize maxGasLimit chain
      (l.foldl (prepareStep ante maxBlockSize maxGasLimit) st) := by
  induction l generalizing st with
  | nil => exact h
  | cons x l ih =>
    have hx := hinfo x List.mem_cons_self
    -- what the step includes is still in the final proposal
    have hstep := h.step hx.1 hx.2 fun hmem =>
      hdecode x List.mem_cons_self ((txsToInclude_isPrefix_foldl_prepareStep l _).subset hmem)
    exact ih hstep (fun y hy => hinfo y (List.mem_cons_of_mem x hy))
      (fun y hy => hdecode y (List.mem_cons_of_mem x hy))

/-! ### The handlers -/

/-- On a reachable mempool, `ProcessProposalHandler` accepts the proposal that
`PrepareProposalHandler` built from the same chain state and block params, when decoding
each returned byte string gives back the tx the mempool stored with it. -/
theorem processProposal_accepts_prepared {cfg : PriorityMempoolConfig Tx}
    {hasEventCh hasAppEventCh : Bool} {σ' : Type} {p : PriorityMempool Tx}
    (hp : p.Reachable I cfg hasEventCh hasAppEventCh σ') (txHash : Bytes → String)
    (chain : σ) (block : Option BlockParams) (req : ProposalRequest) {txs : List Bytes}
    (hprep : (prepareProposalHandler I txHash ante p chain block req).map Prod.fst = some txs)
    (hdecode : ∀ x ∈ p.select, x.info.txBytes ∈ txs → decode x.info.txBytes = .ok x.tx) :
    processProposalHandler I decode ante chain block ⟨req.height, txs⟩ = .accept := by
  unfold prepareProposalHandler at hprep
  unfold processProposalHandler
  split_ifs at hprep with hheight
  · exact if_pos hheight
  rw [if_neg hheight]
  dsimp only at hprep ⊢
  obtain ⟨_, hmap, rfl⟩ := Option.map_eq_some_iff.mp hprep
  obtain ⟨_, -, rfl⟩ := Option.map_eq_some_iff.mp hmap
  obtain ⟨decoded, hdec, -, hrun⟩ :=
    (agrees_start chain).run (fun x hx => hp.wellFormed.select_info hx) hdecode
  simp only [getDecodedTxs, hdec, hrun]

/-- A fresh pool after \[1\]'s account inserts the tx with bytes \[5\]: the proposal is that
tx, and a decoder that gives it back makes `ProcessProposalHandler` accept it. -/
theorem processProposal_accepts_prepared_one_tx :
    ∃ p : PriorityMempool SimpleTx,
      p.Reachable (SimpleTx.interface fun _ => "init1alice")
        { maxTx := 0, maxQueuedPerSender := 0, maxQueuedTotal := 0, queuedGapTTL := 0,
          tiers := [SimpleTx.fastTier] } true true Unit ∧
      (prepareProposalHandler (SimpleTx.interface fun _ => "init1alice") (fun _ => "")
          (fun (u : Unit) _ => .ok u) p () (some ⟨1000, 1000⟩) ⟨2, []⟩).map Prod.fst =
        some [[5]] ∧
      (∀ x ∈ p.select, x.info.txBytes ∈ [[5]] →
        (fun b => if b = [5] then .ok ⟨[1], 0, 10, [5], false, false⟩ else .error "")
          x.info.txBytes = Except.ok (ε := String) x.tx) ∧
      processProposalHandler (SimpleTx.interface fun _ => "init1alice")
          (fun b => if b = [5] then .ok ⟨[1], 0, 10, [5], false, false⟩ else .error "")
          (fun (u : Unit) _ => .ok u) () (some ⟨1000, 1000⟩) ⟨2, [[5]]⟩ = .accept := by
  have hsome := (by decide +kernel : ((PriorityMempool.fastPool 0).step
    (SimpleTx.interface fun _ => "init1alice")
    (.insert (σ := Unit) (.single [1] 0) ⟨10, [5], none⟩ ⟨[1], 0, 10, [5], false, false⟩)).isSome)
  have hprep : (prepareProposalHandler (SimpleTx.interface fun _ => "init1alice") (fun _ => "")
      (fun (u : Unit) _ => .ok u) (Option.get _ hsome) () (some ⟨1000, 1000⟩) ⟨2, []⟩).map
        Prod.fst = some [[5]] := by
    decide +kernel +revert
  have hdecode : ∀ x ∈ (Option.get _ hsome).select, x.info.txBytes ∈ [[5]] →
      (fun b => if b = [5] then .ok ⟨[1], 0, 10, [5], false, false⟩ else .error "")
        x.info.txBytes = Except.ok (ε := String) x.tx := by
    decide +kernel +revert
  have hreach : PriorityMempool.Reachable (SimpleTx.interface fun _ => "init1alice")
      { maxTx := 0, maxQueuedPerSender := 0, maxQueuedTotal := 0, queuedGapTTL := 0,
        tiers := [SimpleTx.fastTier] } true true Unit (Option.get _ hsome) :=
    .step _ .new (Option.some_get hsome).symm
  exact ⟨_, hreach, hprep, hdecode,
    processProposal_accepts_prepared hreach _ () _ _ hprep hdecode⟩

/-- Equal gas alone does not make the handlers agree: a decoder that maps the stored tx's
bytes \[5\] to another tx of the same gas, which the ante handler rejects, makes
`ProcessProposalHandler` reject the proposal its own proposer built. -/
theorem processProposal_rejects_same_gas_decoding :
    ((PriorityMempool.insertAll (PriorityMempool.fastPool 0) 0
        [(10, ⟨[1], 0, 10, [5], false, false⟩)]).bind fun p =>
      (prepareProposalHandler (SimpleTx.interface fun _ => "init1alice") (fun _ => "")
        (fun (u : Unit) tx => if tx.fast then .error "fast" else .ok u) p () (some ⟨1000, 1000⟩)
        ⟨2, []⟩).map Prod.fst) = some [[5]] ∧
    processProposalHandler (SimpleTx.interface fun _ => "init1alice")
        (fun _ => .ok ⟨[1], 0, 10, [5], false, true⟩)
        (fun (u : Unit) tx => if tx.fast then .error "fast" else .ok u) () (some ⟨1000, 1000⟩)
        ⟨2, [[5]]⟩ = .reject := by
  decide +kernel

end Initia.Abcipp




