import Elosys.OfflineSigner

/-!
# Memos on the Way to the Offline Builder

`z_sendmany` hands the bytes of a hexadecimal memo to the builder. `z_sendmany_prepare_offline` of
`rpcwallet.cpp` turns it back into characters, which `AsyncRPCOperation_sendmany::main_impl`
copies. But it empties the text before it counts on its length, so that nothing is left.
-/

open TextCodec List Option Except Bool

namespace Elosys

/-! ### Bytes of a memo -/

theorem not_isSpace_of_hexValue {c : UInt8} {d : Nat} (h : hexValue c = some d) :
    isSpace c = false := by
  by_contra hspace
  rw [Bool.not_eq_false] at hspace
  simp only [isSpace, Bool.or_eq_true, beq_iff_eq] at hspace
  rcases hspace with ((((rfl | rfl) | rfl) | rfl) | rfl) | rfl <;> cases h

theorem noMemo_getD (i : Nat) : noMemo.getD i 0 = if i = 0 then 0xf6 else 0 := by
  cases i with
  | zero => rfl
  | succ i =>
    rw [noMemo, getD_cons_succ, if_neg (Nat.succ_ne_zero i)]
    generalize 511 = k
    by_cases h : i < k
    · simp [h]
    · simp [h]

theorem copyBytes_get {n : Nat} (buf : List UInt8) (i : Fin n) :
    (copyBytes n buf).get i = buf.getD i 0 := by
  simp only [copyBytes, Vector.get, Vector.toArray_ofFn, Array.getElem_ofFn]
  rfl

/-! ### The two commands -/

/-- A recipient, its amount read by `AmountFromValue`. -/
structure SendManyRequest where
  address : List UInt8
  amount : CAmount
  memo : Option (List UInt8)

/-- An output as it is added to a builder. -/
structure MemoOutput where
  address : List UInt8
  amount : CAmount
  memo : Memo

/-- The checks of `z_sendmany` on a memo. -/
def checkMemo : Option (List UInt8) → Except Fault Unit
  | none => .ok ()
  | some memo => do
    throwUnless (isHex memo) "Invalid parameter, expected memo data in hexadecimal format."
    throwUnless (memo.length ≤ 1024)
      "Invalid parameter, size of memo is larger than maximum allowed 512"

variable (o : SendManyRequest)

/-- The loop of `z_sendmany` on a shielded recipient. -/
def zSendmany : Except Fault SendManyRecipient := do
  checkMemo o.memo
  throwUnless (0 ≤ o.amount) "Invalid parameter, amount must be positive"
  .ok ⟨o.address, o.amount, o.memo.getD []⟩

/-- The outputs of `AsyncRPCOperation_sendmany::main_impl`. -/
def addSaplingOutput (r : SendManyRecipient) : Except Fault MemoOutput := do
  let memo ← getMemoFromHexString r.hexMemo
  .ok ⟨r.address, r.amount, memo⟩

/-- The loop of `z_sendmany_prepare_offline` that appends a memo's bytes to a text, bounded by
half its length. -/
def appendMemo (caMemo : Memo) : Nat → Nat → List UInt8 → List UInt8
  | 0, _, strMemo => strMemo
  | fuel + 1, iI, strMemo =>
    if iI < strMemo.length / 2 then
      appendMemo caMemo fuel (iI + 1) (strMemo ++ [caMemo.toList.getD iI 0])
    else strMemo

/-- The memo that `z_sendmany_prepare_offline` passes on. -/
def prepareMemo : Option (List UInt8) → Except Fault (List UInt8)
  | none => .ok []
  | some strMemo => do
    throwUnless (strMemo.length ≤ 512)
      "Invalid parameter, size of memo is larger than maximum allowed 512"
    if isHex strMemo then
      let caMemo ← getMemoFromHexString strMemo
      .ok (appendMemo caMemo 512 0 [])
    else .ok strMemo

def zSendmanyPrepareOffline : Except Fault SendManyRecipient := do
  let strMemo ← prepareMemo o.memo
  throwUnless (0 ≤ o.amount) "Invalid parameter, amount must be positive"
  .ok ⟨o.address, o.amount, strMemo⟩

def addSaplingOutputOffline (r : SendManyRecipient) : Except Fault MemoOutput := do
  if isHex r.hexMemo then
    throwUnless (r.hexMemo.length ≤ 1024) "Memo is too long"
    let caMemo ← getMemoFromHexString r.hexMemo
    .ok ⟨r.address, r.amount, caMemo⟩
  else
    throwUnless (r.hexMemo.length ≤ 512) "Memo is too long"
    .ok ⟨r.address, r.amount, copyBytes 512 r.hexMemo⟩

/-- The outputs of `z_sendmany` for its recipients. -/
def sentOutputs (os : List SendManyRequest) : Except Fault (List MemoOutput) :=
  os.mapM fun o => zSendmany o >>= addSaplingOutput

/-- The outputs of `z_sendmany_prepare_offline`. -/
def preparedOutputs (os : List SendManyRequest) : Except Fault (List MemoOutput) :=
  os.mapM fun o => zSendmanyPrepareOffline o >>= addSaplingOutputOffline

/-! ### What reaches the builders -/

/-- `z_sendmany` takes the recipient: a hexadecimal memo, not too long. -/
def SendManyRequest.Sendable : Prop :=
  (∀ memo, o.memo = some memo → isHex memo = true ∧ memo.length ≤ 1024) ∧ 0 ≤ o.amount

def SendManyRequest.Preparable : Prop :=
  (∀ memo, o.memo = some memo → memo.length ≤ 512) ∧ 0 ≤ o.amount

def SendManyRequest.sent : MemoOutput :=
  let rawMemo := parseHex (o.memo.getD [])
  ⟨o.address, o.amount, copyBytes 512 (rawMemo ++ noMemo.drop rawMemo.length)⟩

/-- What is left of a memo: all of a text, nothing of hexadecimal. -/
def SendManyRequest.strMemo : List UInt8 :=
  if isHex (o.memo.getD []) then [] else o.memo.getD []

def SendManyRequest.prepared : MemoOutput :=
  ⟨o.address, o.amount, copyBytes 512 o.strMemo⟩

def SendManyRequest.ZeroMemo : Prop :=
  ∃ memo, o.memo = some memo ∧ memo.length ≤ 512 ∧ ∀ b ∈ parseHex memo, b = 0

theorem length_parseHex : ∀ {text : List UInt8}, text.all (fun c => (hexValue c).isSome) = true →
    text.length % 2 = 0 → (parseHex text).length = text.length / 2
  | [], _, _ => rfl
  | [c], _, heven => absurd heven (by simp)
  | c :: d :: cs, hall, heven => by
    simp only [all_cons, Bool.and_eq_true, isSome_iff_exists] at hall
    obtain ⟨⟨high, hhigh⟩, ⟨low, hlow⟩, hall⟩ := hall
    have ih := length_parseHex hall (by rw [length_cons, length_cons] at heven; omega)
    rw [parseHex, not_isSpace_of_hexValue hhigh]
    simp only [false_eq_true, if_false, hhigh, hlow, length_cons, ih]
    omega

theorem getMemoFromHexString_of_isHex {s : List UInt8} (h : isHex s = true)
    (hlength : s.length ≤ 1024) : getMemoFromHexString s
      = .ok (copyBytes 512 (parseHex s ++ noMemo.drop (parseHex s).length)) := by
  simp only [isHex, and_eq_true, beq_iff_eq] at h
  have hraw := length_parseHex h.1.1 h.2
  refine bind_eq_ok.mpr ⟨(), ?_, bind_eq_ok.mpr ⟨(), ?_, rfl⟩⟩
  · simp [throwUnless_eq_ok, h.2, hraw]
  · simp only [throwUnless_eq_ok, hraw, decide_eq_true_eq]
    omega

variable {o : SendManyRequest} {out : MemoOutput}

theorem sent_eq_ok : (zSendmany o >>= addSaplingOutput) = .ok out ↔ o.Sendable ∧ out = o.sent := by
  have hcheck : ∀ {u}, checkMemo o.memo = .ok u ↔
      ∀ memo, o.memo = some memo → isHex memo = true ∧ memo.length ≤ 1024 := by
    cases o.memo with
    | none => simp [checkMemo]
    | some memo => simp [checkMemo, bind_eq_ok]
  have hget (h : o.Sendable) : getMemoFromHexString (o.memo.getD []) = .ok o.sent.memo := by
    rw [SendManyRequest.sent]
    cases hmemo : o.memo with
    | none => rfl
    | some memo => exact getMemoFromHexString_of_isHex (h.1 memo hmemo).1 (h.1 memo hmemo).2
  simp only [zSendmany, addSaplingOutput, bind_eq_ok, hcheck, throwUnless_eq_ok,
    decide_eq_true_eq, exists_and_left, exists_const]
  constructor
  · rintro ⟨_, ⟨hmemo, hamount, hr⟩, memo, hm, hout⟩
    obtain rfl := ok.inj hr
    obtain rfl := ok.inj hout
    obtain rfl := ok.inj (hm.symm.trans (hget ⟨hmemo, hamount⟩))
    exact ⟨⟨hmemo, hamount⟩, rfl⟩
  · rintro ⟨h, rfl⟩
    exact ⟨_, ⟨h.1, h.2, rfl⟩, _, hget h, rfl⟩

theorem prepareMemo_eq_ok {strMemo : List UInt8} : prepareMemo o.memo = .ok strMemo ↔
    (∀ memo, o.memo = some memo → memo.length ≤ 512) ∧ strMemo = o.strMemo := by
  rw [SendManyRequest.strMemo]
  cases o.memo with
  | none => simp [prepareMemo, isHex, eq_comm]
  | some memo =>
    simp only [prepareMemo, bind_eq_ok, throwUnless_eq_ok, decide_eq_true_eq, exists_const,
      getD_some, some.injEq, forall_eq']
    refine and_congr_right fun hlength => ?_
    cases hhex : isHex memo with
    | false => simp [eq_comm]
    | true =>
      have hget := getMemoFromHexString_of_isHex hhex (by omega)
      -- the text is empty when the loop starts
      simp [hget, appendMemo, bind, Except.bind, eq_comm]

theorem prepared_eq_ok : (zSendmanyPrepareOffline o >>= addSaplingOutputOffline) = .ok out ↔
      o.Preparable ∧ out = o.prepared := by
  have htext (h : o.Preparable) : isHex o.strMemo = false ∧ o.strMemo.length ≤ 512 := by
    rw [SendManyRequest.strMemo]
    split
    · exact ⟨rfl, Nat.zero_le _⟩
    · next hhex =>
      refine ⟨eq_false_iff.mpr hhex, ?_⟩
      cases hmemo : o.memo with
      | none => exact Nat.zero_le _
      | some memo => exact h.1 memo hmemo
  have hoffline (h : o.Preparable) :
      addSaplingOutputOffline ⟨o.address, o.amount, o.strMemo⟩ = .ok o.prepared := by
    simp [addSaplingOutputOffline, htext h, throwUnless, bind, Except.bind,
      SendManyRequest.prepared]
  simp only [zSendmanyPrepareOffline, bind_eq_ok, prepareMemo_eq_ok, throwUnless_eq_ok,
    decide_eq_true_eq, exists_const]
  constructor
  · rintro ⟨_, ⟨_, ⟨hmemo, rfl⟩, hamount, hr⟩, hout⟩
    obtain rfl := ok.inj hr
    rw [hoffline ⟨hmemo, hamount⟩] at hout
    exact ⟨⟨hmemo, hamount⟩, (ok.inj hout).symm⟩
  · rintro ⟨h, rfl⟩
    exact ⟨_, ⟨_, ⟨h.1, rfl⟩, h.2, rfl⟩, hoffline h⟩

theorem mapM_eq_ok {α β : Type} {f : α → Except Fault β} {P : α → Prop} {g : α → β}
    (h : ∀ {a b}, f a = .ok b ↔ P a ∧ b = g a) {l : List α} :
    ∀ {bs : List β}, l.mapM f = .ok bs ↔ (∀ a ∈ l, P a) ∧ bs = l.map g := by
  induction l with
  | nil => simp [pure, Except.pure, eq_comm]
  | cons a l ih =>
    intro bs
    simp only [mapM_cons, bind_eq_ok, h, ih, forall_mem_cons, map_cons]
    constructor
    · rintro ⟨b, ⟨ha, rfl⟩, _, ⟨hl, rfl⟩, hbs⟩
      exact ⟨⟨ha, hl⟩, (ok.inj hbs).symm⟩
    · rintro ⟨⟨ha, hl⟩, rfl⟩
      exact ⟨_, ⟨ha, rfl⟩, _, ⟨hl, rfl⟩, rfl⟩

theorem copyBytes_inj {n : Nat} {a b : List UInt8} :
    copyBytes n a = copyBytes n b ↔ ∀ i : Fin n, a.getD i 0 = b.getD i 0 := by
  simp only [← copyBytes_get]
  exact ⟨fun h i => h ▸ rfl, fun h => Vector.ext fun i hi => h ⟨i, hi⟩⟩

theorem getD_over_noMemo {raw : List UInt8} (hpos : 0 < raw.length) (i : Nat) :
    (raw ++ noMemo.drop raw.length).getD i 0 = raw.getD i 0 := by
  by_cases h : i < raw.length
  · exact getD_append _ _ _ _ h
  · have hadd : raw.length + (i - raw.length) = i := by omega
    rw [getD_append_right _ _ _ _ (by omega), getD_eq_default _ _ (by omega : raw.length ≤ i),
      getD_eq_getElem?_getD, getElem?_drop, hadd, ← getD_eq_getElem?_getD, noMemo_getD,
      if_neg (by omega)]

theorem zeroMemo_iff (h : o.Sendable) : o.Preparable ∧ o.sent = o.prepared ↔ o.ZeroMemo := by
  have hmemo : o.sent = o.prepared ↔ o.sent.memo = o.prepared.memo :=
    ⟨congrArg MemoOutput.memo, fun h => congrArg (MemoOutput.mk o.address o.amount) h⟩
  obtain ⟨address, amount, _ | memo⟩ := o
  · have hfirst : ¬∀ i : Fin 512, noMemo.getD i 0 = [].getD i 0 := fun h => nomatch h 0
    rw [hmemo, SendManyRequest.sent, SendManyRequest.prepared, copyBytes_inj]
    exact ⟨fun h => absurd h.2 hfirst, fun ⟨_, h, _⟩ => nomatch h⟩
  · obtain ⟨hhex, hlong⟩ := h.1 memo rfl
    have hhex' := hhex
    simp only [isHex, and_eq_true, beq_iff_eq, decide_eq_true_eq] at hhex'
    have hraw := length_parseHex hhex'.1.1 hhex'.2
    have hpos : 0 < memo.length := length_pos_iff.mpr hhex'.1.2
    have hempty : SendManyRequest.strMemo ⟨address, amount, some memo⟩ = [] := if_pos hhex
    rw [hmemo, SendManyRequest.sent, SendManyRequest.prepared, hempty, copyBytes_inj]
    have hover := getD_over_noMemo (show 0 < (parseHex memo).length by omega)
    simp only [getD_some, hover, getD_nil]
    constructor
    · rintro ⟨hfits, hzero⟩
      refine ⟨memo, rfl, hfits.1 memo rfl, fun b hb => ?_⟩
      obtain ⟨i, hi, rfl⟩ := getElem_of_mem hb
      rw [← getD_eq_getElem _ 0 hi]
      exact hzero ⟨i, by omega⟩
    · rintro ⟨_, ⟨⟩, hfits, hzero⟩
      refine ⟨⟨?_, h.2⟩, fun i => ?_⟩
      · rintro _ ⟨⟩
        exact hfits
      · by_cases hi : i.val < (parseHex memo).length
        · rw [getD_eq_getElem _ 0 hi]
          exact hzero _ (getElem_mem hi)
        · exact getD_eq_default _ _ (by omega)

/-- **Memos on the way to the offline builder** are kept exactly if all are zeros in hexadecimal, or
`z_sendmany` refuses a recipient. -/
theorem offline_memos_iff (os : List SendManyRequest) :
    ((∀ outs, sentOutputs os = .ok outs → preparedOutputs os = .ok outs) ↔
      (∃ o ∈ os, ¬o.Sendable) ∨ ∀ o ∈ os, o.ZeroMemo) ∧
    ∀ outs, preparedOutputs os = .ok outs →
      outs.map (fun out => (out.address, out.amount)) = os.map fun o => (o.address, o.amount) := by
  have hsent : ∀ {outs}, sentOutputs os = .ok outs ↔ _ := mapM_eq_ok sent_eq_ok
  have hprepared : ∀ {outs}, preparedOutputs os = .ok outs ↔ _ := mapM_eq_ok prepared_eq_ok
  refine ⟨?_, fun outs h => ?_⟩
  · by_cases hall : ∀ o ∈ os, o.Sendable
    · have hiff : (∀ o ∈ os, o.Preparable) ∧ os.map (·.sent) = os.map (·.prepared) ↔
          ∀ o ∈ os, o.ZeroMemo := by
        rw [map_inj_left, ← forall₂_and]
        exact forall₂_congr fun o ho => zeroMemo_iff (hall o ho)
      have hnone : ¬∃ o ∈ os, ¬o.Sendable := fun ⟨o, ho, h⟩ => h (hall o ho)
      rw [or_iff_right hnone, ← hiff, ← hprepared]
      exact ⟨fun h => h _ (hsent.mpr ⟨hall, rfl⟩), fun h outs hs => (hsent.mp hs).2 ▸ h⟩
    · have hsome : ∃ o ∈ os, ¬o.Sendable := by simpa using hall
      exact iff_of_true (fun outs hs => absurd (hsent.mp hs).1 hall) (.inl hsome)
  · rw [(hprepared.mp h).2, List.map_map]
    rfl

/-- A memo of one byte is lost. -/
theorem offline_memo_lost :
    (sentOutputs [⟨[], 5, some [0x66, 0x66]⟩]).map (·.map (·.memo.get 0)) = .ok [0xff] ∧
      (preparedOutputs [⟨[], 5, some [0x66, 0x66]⟩]).map (·.map (·.memo.get 0)) = .ok [0x00] := by
  decide +kernel

end Elosys
