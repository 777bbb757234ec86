import Mathlib
import Initia.Abcipp.Agreement

/-!
# Proposals stay within the block's budgets

Both proposal loops compare a running total with the block's budget after adding the next
tx: gas in `uint64`, bytes in `int64`. A gas limit near `2^64` wraps the sum below the budget
and passes the check, so the check alone bounds nothing. What makes the totals exact is the
ante handler that runs right after the check: the app's ante chain starts with the SDK's
`SetUpContextDecorator`, which refuses a tx whose gas limit exceeds a positive `MaxGas`
(`AnteBoundsGas`). Every tx a loop keeps then has gas at most `MaxGas < 2^63`, and a total
at most `MaxGas` plus such a gas cannot wrap. For the bytes it is enough that all the txs of a
request, or of a mempool snapshot, fit in memory together: fewer than `2^63` bytes.

At height one or below both handlers return before any check: `ProcessProposal` accepts
every proposal and `PrepareProposal` returns the request's txs.

Source: `abcipp/proposals.go`, `app/ante/ante.go`.
-/

namespace Initia.Abcipp

variable {Tx σ : Type} {I : TxInterface Tx} {ante : AnteHandler σ Tx}
  {decode : Bytes → Except String Tx} {maxBlockSize maxGasLimit : Int64}

/-- The ante handler refuses every tx whose gas limit exceeds a positive block gas limit, as
`SetUpContextDecorator`, the outermost decorator of the app's ante chain, does. -/
def AnteBoundsGas (I : TxInterface Tx) (ante : AnteHandler σ Tx) (maxGas : Int64) : Prop :=
  0 < maxGas → ∀ chain tx gas chain', I.feeGas tx = some gas → ante chain tx = .ok chain' →
    gas ≤ maxGas.toUInt64

/-! ### Adding to the totals without wrapping -/

/-- A positive `int64` budget keeps its value as `uint64`. -/
theorem toNat_toUInt64_of_pos {x : Int64} (hx : 0 < x) : (x.toUInt64.toNat : ℤ) = x.toInt := by
  have hpos := Int64.lt_iff_toInt_lt.mp hx
  rw [Int64.toNat_toUInt64_of_le (Int64.le_iff_toInt_le.mpr (by omega)), Int64.toNatClampNeg]
  simp only [Int64.toInt_zero] at hpos
  omega

/-- A gas total within a positive budget, plus a gas limit within it too, is computed exactly;
when it passes the check it is within the budget. -/
theorem add_gas_of_not_gt {total gas : UInt64} {maxGas : Int64} (hmax : 0 < maxGas)
    (htotal : (total.toNat : ℤ) ≤ maxGas.toInt) (hgas : gas ≤ maxGas.toUInt64)
    (hchk : ¬total + gas > maxGas.toUInt64) :
    (total + gas).toNat = total.toNat + gas.toNat ∧
      ((total.toNat + gas.toNat : ℕ) : ℤ) ≤ maxGas.toInt := by
  have hM := toNat_toUInt64_of_pos hmax
  have hlt := maxGas.toInt_lt
  rw [UInt64.le_iff_toNat_le] at hgas
  -- both summands are at most the budget, which is below `2^63`
  have hadd : (total + gas).toNat = total.toNat + gas.toNat := by
    rw [UInt64.toNat_add]
    exact Nat.mod_eq_of_lt (by omega)
  refine ⟨hadd, ?_⟩
  rw [gt_iff_lt, UInt64.lt_iff_toNat_lt, hadd] at hchk
  omega

/-- A non-negative byte total plus a length that keeps it below `2^63` is computed exactly;
when it passes the check it is within the budget. -/
theorem add_size_of_not_gt {total maxBytes : Int64} {len : ℕ} (htotal : 0 ≤ total.toInt)
    (hfit : total.toInt + len < 2 ^ 63) (hchk : ¬total + Int64.ofNat len > maxBytes) :
    (total + Int64.ofNat len).toInt = total.toInt + len ∧ total.toInt + len ≤ maxBytes.toInt := by
  have hlen : (Int64.ofNat len).toInt = len := Int64.toInt_ofNat_of_lt (by omega)
  have hadd : (total + Int64.ofNat len).toInt = total.toInt + len := by
    rw [Int64.toInt_add, hlen, Int.bmod_eq_of_le] <;> norm_num <;> omega
  refine ⟨hadd, ?_⟩
  rw [gt_iff_lt, Int64.lt_iff_toInt_lt, hadd] at hchk
  omega

/-! ### The process loop -/

/-- What one process step can do when it does not reject: the tx has a gas limit, both
checks pass and the ante handler accepts it; the totals and the chain state advance. -/
theorem processStep_eq_some {acc acc' : UInt64 × Int64 × σ} {item : Tx × Bytes}
    (h : processStep I ante maxBlockSize maxGasLimit acc item = some acc') :
    ∃ gas chain', I.feeGas item.1 = some gas ∧
      ¬(maxGasLimit > 0 ∧ acc.1 + gas > maxGasLimit.toUInt64) ∧
      ¬(maxBlockSize > 0 ∧ acc.2.1 + Int64.ofNat item.2.length > maxBlockSize) ∧
      ante acc.2.2 item.1 = .ok chain' ∧
      acc' = (acc.1 + gas, acc.2.1 + Int64.ofNat item.2.length, chain') := by
  obtain ⟨totalGas, totalTxBytes, chain⟩ := acc
  obtain ⟨tx, txBytes⟩ := item
  unfold processStep at h
  dsimp only at h ⊢
  cases hgas : I.feeGas tx with
  | none => simp [hgas] at h
  | some gas =>
    rw [hgas] at h
    dsimp only at h
    split_ifs at h with hg hb
    cases hante : ante chain tx with
    | error e => simp [hante] at h
    | ok chain' =>
      rw [hante] at h
      exact ⟨gas, chain', rfl, hg, hb, rfl, (Option.some.inj h).symm⟩

/-- The process loop, from totals within positive budgets and with room below `2^63` for the
bytes still to come, accepts only txs with gas limits whose exact sums, added to the totals,
stay within the budgets. -/
theorem foldlM_processStep_within (hgas : 0 < maxGasLimit) (hbytes : 0 < maxBlockSize)
    (hante : AnteBoundsGas I ante maxGasLimit) :
    ∀ (items : List (Tx × Bytes)) (totalGas : UInt64) (totalTxBytes : Int64) (chain : σ)
      {acc' : UInt64 × Int64 × σ},
      (totalGas.toNat : ℤ) ≤ maxGasLimit.toInt → 0 ≤ totalTxBytes.toInt →
      totalTxBytes.toInt ≤ maxBlockSize.toInt →
      totalTxBytes.toInt + (((items.map (·.2.length)).sum : ℕ) : ℤ) < 2 ^ 63 →
      items.foldlM (processStep I ante maxBlockSize maxGasLimit) (totalGas, totalTxBytes, chain) =
        some acc' →
      ∃ gases, (items.map Prod.fst).mapM I.feeGas = some gases ∧
        ((totalGas.toNat + (gases.map UInt64.toNat).sum : ℕ) : ℤ) ≤ maxGasLimit.toInt ∧
        totalTxBytes.toInt + (((items.map (·.2.length)).sum : ℕ) : ℤ) ≤ maxBlockSize.toInt := by
  intro items
  induction items with
  | nil =>
    intro totalGas totalTxBytes chain acc' hg _ hbmax _ _
    exact ⟨[], rfl, by simpa using hg, by simpa using hbmax⟩
  | cons item items ih =>
    intro totalGas totalTxBytes chain acc' hg hb _ hfit h
    simp only [List.foldlM_cons, bind, Option.bind_eq_some_iff] at h
    obtain ⟨acc, hstep, hrest⟩ := h
    obtain ⟨gas, chain', hfee, hgchk, hbchk, hok, rfl⟩ := processStep_eq_some hstep
    simp only [List.map_cons, List.sum_cons, Nat.cast_add] at hfit
    obtain ⟨hgadd, hgle⟩ := add_gas_of_not_gt hgas hg (hante hgas _ _ _ _ hfee hok)
      (fun hc => hgchk ⟨hgas, hc⟩)
    obtain ⟨hbadd, hble⟩ := add_size_of_not_gt hb (by omega) (fun hc => hbchk ⟨hbytes, hc⟩)
    obtain ⟨gases, hmap, hgases, hbytes'⟩ := ih _ _ _ (by rw [hgadd]; exact hgle)
      (by rw [hbadd]; omega) (by rw [hbadd]; exact hble) (by rw [hbadd]; omega) hrest
    refine ⟨gas :: gases, by simp [hfee, hmap], ?_, ?_⟩
    · rw [hgadd] at hgases
      simpa [Nat.add_assoc] using hgases
    · rw [hbadd] at hbytes'
      simp only [List.map_cons, List.sum_cons, Nat.cast_add]
      omega

/-- Decoding all of a proposal gives one tx per byte string. -/
theorem length_eq_of_mapM_eq_ok {α β ε : Type} {f : α → Except ε β} {l : List α} {r : List β}
    (h : l.mapM f = .ok r) : r.length = l.length := by
  induction l generalizing r with
  | nil =>
    cases h
    rfl
  | cons a l ih =>
    rw [List.mapM_cons] at h
    cases ha : f a with
    | error e =>
      rw [ha] at h
      cases h
    | ok b =>
      cases hl : l.mapM f with
      | error e =>
        rw [ha, hl] at h
        cases h
      | ok bs =>
        rw [ha, hl] at h
        cases h
        simp [ih hl]

/-- At heights above one, every proposal `ProcessProposalHandler` accepts decodes to txs with
gas limits whose exact sum is at most the block's positive `MaxGas`, and its byte strings'
lengths sum to at most its positive `MaxBytes`, whenever the ante handler makes the check of
`SetUpContextDecorator` and the proposal fits in memory. -/
theorem processProposalHandler_within_budgets {block : BlockParams} (hgas : 0 < block.maxGas)
    (hbytes : 0 < block.maxBytes) (hante : AnteBoundsGas I ante block.maxGas) {chain : σ}
    {req : ProposalRequest} (hheight : 1 < req.height)
    (hmem : (((req.txs.map List.length).sum : ℕ) : ℤ) < 2 ^ 63)
    (h : processProposalHandler I decode ante chain (some block) req = .accept) :
    ∃ decoded gases, getDecodedTxs decode req.txs = .ok decoded ∧
      decoded.mapM I.feeGas = some gases ∧
      (((gases.map UInt64.toNat).sum : ℕ) : ℤ) ≤ block.maxGas.toInt ∧
      (((req.txs.map List.length).sum : ℕ) : ℤ) ≤ block.maxBytes.toInt := by
  unfold processProposalHandler at h
  rw [if_neg (Int64.not_le.mpr hheight)] at h
  cases hdec : getDecodedTxs decode req.txs with
  | error e => simp [hdec] at h
  | ok decoded =>
    rw [hdec] at h
    dsimp only [blockBudgets] at h
    cases hrun : (decoded.zip req.txs).foldlM (processStep I ante block.maxBytes block.maxGas)
        (0, 0, chain) with
    | none => simp [hrun] at h
    | some acc' =>
      -- one decoded tx per byte string, so the zip loses neither side
      have hlen := length_eq_of_mapM_eq_ok hdec
      have hfst : (decoded.zip req.txs).map Prod.fst = decoded := List.map_fst_zip (by omega)
      have hsnd : ((decoded.zip req.txs).map (·.2.length)) = req.txs.map List.length := by
        rw [show (fun x : Tx × Bytes => x.2.length) = List.length ∘ Prod.snd from rfl,
          ← List.map_map, List.map_snd_zip (by omega)]
      have hgas' := Int64.lt_iff_toInt_lt.mp hgas
      have hbytes' := Int64.lt_iff_toInt_lt.mp hbytes
      simp only [Int64.toInt_zero] at hgas' hbytes'
      obtain ⟨gases, hmap, hg, hb⟩ := foldlM_processStep_within hgas hbytes hante _ 0 0 chain
        (by simp; omega) (by simp) (by simp; omega) (by simpa [hsnd] using hmem) hrun
      rw [hfst] at hmap
      refine ⟨decoded, gases, rfl, hmap, by simpa using hg, by simpa [hsnd] using hb⟩

/-! ### The prepare loop -/

/-- The prepare loop's totals are the exact sums over the entries `inc` it has included, in the
order it met them, and within the budgets. -/
structure PrepareState.Within (maxBlockSize maxGasLimit : Int64) (st : PrepareState Tx σ)
    (inc : List (TxInfoEntry Tx)) : Prop where
  txsToInclude_eq : st.txsToInclude = inc.map (·.info.txBytes)
  totalGas_eq : st.totalGas.toNat = (inc.map (·.info.gasLimit.toNat)).sum
  totalSize_eq : st.totalSize.toInt = (((inc.map (·.info.txBytes.length)).sum : ℕ) : ℤ)
  gas_le : (((inc.map (·.info.gasLimit.toNat)).sum : ℕ) : ℤ) ≤ maxGasLimit.toInt
  size_le : (((inc.map (·.info.txBytes.length)).sum : ℕ) : ℤ) ≤ maxBlockSize.toInt

theorem within_start (chain : σ) (hgas : 0 < maxGasLimit) (hbytes : 0 < maxBlockSize) :
    (⟨chain, 0, 0, [], [], []⟩ : PrepareState Tx σ).Within maxBlockSize maxGasLimit [] := by
  have hgas' := Int64.lt_iff_toInt_lt.mp hgas
  have hbytes' := Int64.lt_iff_toInt_lt.mp hbytes
  simp only [Int64.toInt_zero] at hgas' hbytes'
  exact ⟨rfl, rfl, rfl, by simp; omega, by simp; omega⟩

/-- One prepare step on an entry whose size is its bytes' length and whose gas limit is its
`GetGas` keeps the totals exact and within the budgets: it includes the entry or leaves the
totals alone. -/
theorem PrepareState.Within.step {st : PrepareState Tx σ} {inc : List (TxInfoEntry Tx)}
    (h : st.Within maxBlockSize maxGasLimit inc) (hgas : 0 < maxGasLimit)
    (hbytes : 0 < maxBlockSize) (hante : AnteBoundsGas I ante maxGasLimit) {x : TxInfoEntry Tx}
    (hsize : x.info.size = Int64.ofNat x.info.txBytes.length)
    (hfee : I.feeGas x.tx = some x.info.gasLimit)
    (hfit : (((inc.map (·.info.txBytes.length)).sum : ℕ) : ℤ) + x.info.txBytes.length < 2 ^ 63) :
    (prepareStep ante maxBlockSize maxGasLimit st x).Within maxBlockSize maxGasLimit inc ∨
      (prepareStep ante maxBlockSize maxGasLimit st x).Within maxBlockSize maxGasLimit
        (inc ++ [x]) := by
  rcases prepareStep_cases ante maxBlockSize maxGasLimit st x with
    ⟨hinc, hsz, hg, -⟩ | ⟨hbchk, hgchk, chain', hok, hst⟩
  · left
    obtain ⟨h1, h2, h3, h4, h5⟩ := h
    exact ⟨hinc ▸ h1, hg ▸ h2, hsz ▸ h3, h4, h5⟩
  · right
    rw [hst]
    obtain ⟨hgadd, hgle⟩ := add_gas_of_not_gt hgas (h.totalGas_eq ▸ h.gas_le)
      (hante hgas _ _ _ _ hfee hok) (fun hc => hgchk ⟨hgas, hc⟩)
    rw [hsize] at hbchk
    obtain ⟨hbadd, hble⟩ := add_size_of_not_gt (by rw [h.totalSize_eq]; omega)
      (by rw [h.totalSize_eq]; exact hfit) (fun hc => hbchk ⟨hbytes, hc⟩)
    refine ⟨by simp [h.txsToInclude_eq], ?_, ?_, ?_, ?_⟩
    · simp [hgadd, h.totalGas_eq]
    · simp [hsize, hbadd, h.totalSize_eq]
    · simpa [h.totalGas_eq] using hgle
    · simpa [h.totalSize_eq] using hble

/-- Over a snapshot of consistent entries whose bytes fit in memory together, the prepare
loop includes a sublist of it, with exact totals within the budgets. -/
theorem PrepareState.Within.run (hgas : 0 < maxGasLimit) (hbytes : 0 < maxBlockSize)
    (hante : AnteBoundsGas I ante maxGasLimit) :
    ∀ (l : List (TxInfoEntry Tx)) (st : PrepareState Tx σ) (inc : List (TxInfoEntry Tx)),
      st.Within maxBlockSize maxGasLimit inc →
      (∀ x ∈ l, x.info.size = Int64.ofNat x.info.txBytes.length ∧
        I.feeGas x.tx = some x.info.gasLimit) →
      (((inc.map (·.info.txBytes.length)).sum : ℕ) : ℤ) +
          (((l.map (·.info.txBytes.length)).sum : ℕ) : ℤ) < 2 ^ 63 →
      ∃ new, List.Sublist new l ∧
        (l.foldl (prepareStep ante maxBlockSize maxGasLimit) st).Within maxBlockSize maxGasLimit
          (inc ++ new) := by
  intro l
  induction l with
  | nil => exact fun st inc h _ _ => ⟨[], List.Sublist.slnil, by simpa using h⟩
  | cons x l ih =>
    intro st inc h hinfo hfit
    have hx := hinfo x List.mem_cons_self
    have hinfo' := fun y hy => hinfo y (List.mem_cons_of_mem x hy)
    simp only [List.map_cons, List.sum_cons, Nat.cast_add] at hfit
    rw [List.foldl_cons]
    -- the step either skips `x` or includes it; the room left shrinks by at most its bytes
    rcases h.step hgas hbytes hante hx.1 hx.2 (by omega) with hkeep | hadd
    · obtain ⟨new, hsub, hrun⟩ := ih _ inc hkeep hinfo' (by omega)
      exact ⟨new, hsub.cons x, hrun⟩
    · obtain ⟨new, hsub, hrun⟩ := ih _ (inc ++ [x]) hadd hinfo'
        (by simp only [List.map_append, List.sum_append, List.map_singleton, List.sum_singleton,
          Nat.cast_add]; omega)
      exact ⟨x :: new, hsub.cons_cons x, by simpa using hrun⟩

/-- At heights above one, on a reachable mempool whose txs fit in memory together,
`PrepareProposalHandler` returns the bytes of a sublist of `Select`'s snapshot whose gas limits,
each the tx's `GetGas`, sum to at most the block's positive `MaxGas`, and whose lengths sum to
at most its positive `MaxBytes`, whenever the ante handler makes the check of
`SetUpContextDecorator`. -/
theorem prepareProposalHandler_within_budgets {cfg : PriorityMempoolConfig Tx}
    {hasEventCh hasAppEventCh : Bool} {σ' : Type} {p : PriorityMempool Tx}
    (hp : p.Reachable I cfg hasEventCh hasAppEventCh σ') (txHash : Bytes → String) (chain : σ)
    {block : BlockParams} (hgas : 0 < block.maxGas) (hbytes : 0 < block.maxBytes)
    (hante : AnteBoundsGas I ante block.maxGas) {req : ProposalRequest} (hheight : 1 < req.height)
    (hmem : (((p.select.map (·.info.txBytes.length)).sum : ℕ) : ℤ) < 2 ^ 63)
    {txs : List Bytes} {p' : PriorityMempool Tx}
    (h : prepareProposalHandler I txHash ante p chain (some block) req = some (txs, p')) :
    ∃ inc, List.Sublist inc p.select ∧ txs = inc.map (·.info.txBytes) ∧
      (∀ x ∈ inc, I.feeGas x.tx = some x.info.gasLimit) ∧
      (((inc.map (·.info.gasLimit.toNat)).sum : ℕ) : ℤ) ≤ block.maxGas.toInt ∧
      (((txs.map List.length).sum : ℕ) : ℤ) ≤ block.maxBytes.toInt := by
  unfold prepareProposalHandler at h
  rw [if_neg (Int64.not_le.mpr hheight)] at h
  dsimp only [blockBudgets] at h
  obtain ⟨_, -, hpair⟩ := Option.map_eq_some_iff.mp h
  obtain ⟨rfl, -⟩ := Prod.mk.inj hpair.symm
  have hinfo : ∀ x ∈ p.select, x.info.size = Int64.ofNat x.info.txBytes.length ∧
      I.feeGas x.tx = some x.info.gasLimit := fun x hx => hp.wellFormed.select_info hx
  obtain ⟨inc, hsub, hrun⟩ := PrepareState.Within.run hgas hbytes hante p.select _ []
    (within_start chain hgas hbytes) hinfo (by simpa using hmem)
  simp only [List.nil_append] at hrun
  refine ⟨inc, hsub, hrun.txsToInclude_eq, fun x hx => (hinfo x (hsub.subset hx)).2,
    hrun.gas_le, ?_⟩
  rw [hrun.txsToInclude_eq, List.map_map]
  exact hrun.size_le

/-! ### Both handlers -/

/-- Above height one, every proposal `ProcessProposalHandler` accepts and every proposal
`PrepareProposalHandler` builds on a reachable mempool stays within the block's positive
budgets, summed over the integers, whatever the txs' gas limits, given the ante handler's
check of `SetUpContextDecorator` and txs that fit in memory together. -/
theorem proposals_within_budgets {block : BlockParams} (hgas : 0 < block.maxGas)
    (hbytes : 0 < block.maxBytes) (hante : AnteBoundsGas I ante block.maxGas) :
    (∀ (chain : σ) (req : ProposalRequest), 1 < req.height →
      (((req.txs.map List.length).sum : ℕ) : ℤ) < 2 ^ 63 →
      processProposalHandler I decode ante chain (some block) req = .accept →
      ∃ decoded gases, getDecodedTxs decode req.txs = .ok decoded ∧
        decoded.mapM I.feeGas = some gases ∧
        (((gases.map UInt64.toNat).sum : ℕ) : ℤ) ≤ block.maxGas.toInt ∧
        (((req.txs.map List.length).sum : ℕ) : ℤ) ≤ block.maxBytes.toInt) ∧
    (∀ (cfg : PriorityMempoolConfig Tx) (hasEventCh hasAppEventCh : Bool) (σ' : Type)
      (p : PriorityMempool Tx) (txHash : Bytes → String) (chain : σ) (req : ProposalRequest)
      (txs : List Bytes) (p' : PriorityMempool Tx),
      p.Reachable I cfg hasEventCh hasAppEventCh σ' → 1 < req.height →
      (((p.select.map (·.info.txBytes.length)).sum : ℕ) : ℤ) < 2 ^ 63 →
      prepareProposalHandler I txHash ante p chain (some block) req = some (txs, p') →
      ∃ inc, List.Sublist inc p.select ∧ txs = inc.map (·.info.txBytes) ∧
        (∀ x ∈ inc, I.feeGas x.tx = some x.info.gasLimit) ∧
        (((inc.map (·.info.gasLimit.toNat)).sum : ℕ) : ℤ) ≤ block.maxGas.toInt ∧
        (((txs.map List.length).sum : ℕ) : ℤ) ≤ block.maxBytes.toInt) :=
  ⟨fun _ _ hheight hmem h => processProposalHandler_within_budgets hgas hbytes hante hheight hmem h,
    fun _ _ _ _ _ txHash chain _ _ _ hp hheight hmem h =>
      prepareProposalHandler_within_budgets hp txHash chain hgas hbytes hante hheight hmem h⟩

/-- A chain without state of its own whose ante handler makes only the check of
`SetUpContextDecorator` against the gas limit `maxGas`. -/
def SimpleTx.setUpContextAnte (maxGas : UInt64) : AnteHandler Unit SimpleTx := fun u tx =>
  if tx.gas > maxGas then .error "tx gas limit exceeds block max gas" else .ok u

theorem SimpleTx.anteBoundsGas_setUpContextAnte (bech32 : Bytes → String) (maxGas : Int64) :
    AnteBoundsGas (SimpleTx.interface bech32) (SimpleTx.setUpContextAnte maxGas.toUInt64)
      maxGas := by
  intro _ chain tx gas chain' hfee hok
  simp only [SimpleTx.interface, Option.some.injEq] at hfee
  subst hfee
  unfold SimpleTx.setUpContextAnte at hok
  split_ifs at hok with hgt
  exact UInt64.not_lt.mp hgt

/-- Two txs of gas 600 under a gas limit of 1000 at height two: `ProcessProposalHandler` does
not accept them. -/
theorem processProposalHandler_rejects_over_gas :
    AnteBoundsGas (SimpleTx.interface fun _ => "init1alice") (SimpleTx.setUpContextAnte 1000)
        1000 ∧
      processProposalHandler (SimpleTx.interface fun _ => "init1alice")
        (fun b => .ok ⟨[1], 0, 600, b, false, false⟩) (SimpleTx.setUpContextAnte 1000) ()
        (some ⟨1000, 1000⟩) ⟨2, [[5], [6]]⟩ ≠ .accept := by
  have hante := SimpleTx.anteBoundsGas_setUpContextAnte (fun _ => "init1alice") 1000
  refine ⟨hante, fun h => ?_⟩
  obtain ⟨decoded, gases, hdec, hmap, hg, -⟩ :=
    (proposals_within_budgets (by decide : (0 : Int64) < (⟨1000, 1000⟩ : BlockParams).maxGas)
      (by decide) hante).1 () _
      (by decide) (by decide) h
  cases hdec
  simp only [SimpleTx.interface] at hmap
  cases hmap
  revert hg
  decide

/-- At height one the handlers check nothing: `ProcessProposalHandler` accepts two txs of gas
600 under a gas limit of 1000, and `PrepareProposalHandler` returns them as the request gave
them. -/
theorem proposals_over_budget_at_height_one :
    getDecodedTxs (fun b => (.ok ⟨[1], 0, 600, b, false, false⟩ : Except String SimpleTx))
        [[5], [6]] = .ok [⟨[1], 0, 600, [5], false, false⟩, ⟨[1], 0, 600, [6], false, false⟩] ∧
      processProposalHandler (SimpleTx.interface fun _ => "init1alice")
        (fun b => .ok ⟨[1], 0, 600, b, false, false⟩) (SimpleTx.setUpContextAnte 1000) ()
        (some ⟨1000, 1000⟩) ⟨1, [[5], [6]]⟩ = .accept ∧
      (prepareProposalHandler (SimpleTx.interface fun _ => "init1alice") (fun _ => "")
        (SimpleTx.setUpContextAnte 1000) (PriorityMempool.fastPool 0) () (some ⟨1000, 1000⟩)
        ⟨1, [[5], [6]]⟩).map Prod.fst = some [[5], [6]] :=
  ⟨rfl, rfl, rfl⟩

end Initia.Abcipp
