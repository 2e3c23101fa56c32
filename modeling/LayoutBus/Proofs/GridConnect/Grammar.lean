import LayoutBus.Proofs.GridConnect.Digits

/-!
# The grammar of GridConnect text

Reading a text accepts exactly the texts of the grammar, and it gives the one frame that the text
spells; writing that frame gives the text back in upper case.

* `GridConnect.readIdentifier_eq_ok_iff`, `GridConnect.readData_eq_ok_iff` and
  `GridConnect.readBody_eq_ok_iff` : the parts of a text.
* `GridConnect.decode_eq_ok_iff` : a whole text.
* `GridConnect.Spelling` : the texts of the grammar, whatever they spell.
* `GridConnect.decode_exact` : **exactness.**  The reader accepts the grammar and nothing else, and
  reader and writer are inverse to each other up to the case of digits.
-/

namespace LayoutBus.GridConnect

variable {text ids data digits body : List UInt8} {f : Frame} {n v : Nat} {b : UInt8}

/-- A reading in two steps. -/
theorem bind_eq_ok_iff {ε α β : Type} {x : Except ε α} {k : α → Except ε β} {y : β} :
    x >>= k = .ok y ↔ ∃ a, x = .ok a ∧ k a = .ok y := by
  cases x with
  | error e => simp [bind, Except.bind]
  | ok a => simp [bind, Except.bind]

/-! ### Numbers and bytes -/

theorem readDigit_eq_ok_iff : readDigit b = .ok v ↔ Hex.value? b = some v := by
  rw [readDigit]
  cases Hex.value? b <;> simp

theorem readNumber_concat (ds : List UInt8) (b : UInt8) :
    readNumber (ds ++ [b]) =
      readNumber ds >>= fun n => readDigit b >>= fun v => pure (n * 16 + v) := by
  simp [readNumber, List.foldlM_append]

/-- A number is read if all its bytes are digits. -/
theorem readNumber_eq_ok_iff :
    readNumber digits = .ok n ↔ (∀ b ∈ digits, Hex.isDigit b = true) ∧ n = numberOf digits := by
  induction digits using List.reverseRecOn generalizing n with
  | nil =>
    rw [show readNumber [] = .ok 0 from rfl, Except.ok.injEq, numberOf_nil, eq_comm]
    simp
  | append_singleton ds b ih =>
    simp only [readNumber_concat, bind_eq_ok_iff, ih, readDigit_eq_ok_iff, pure, Except.pure,
      Except.ok.injEq, List.forall_mem_append, List.forall_mem_singleton, Hex.isDigit_iff,
      numberOf_concat]
    constructor
    · rintro ⟨_, ⟨hds, rfl⟩, v, hv, rfl⟩
      exact ⟨⟨hds, v, hv⟩, by rw [hv, Option.getD_some]⟩
    · rintro ⟨⟨hds, v, hv⟩, rfl⟩
      exact ⟨_, ⟨hds, rfl⟩, v, hv, by rw [hv, Option.getD_some]⟩

theorem readByte_eq_ok_iff {high low : UInt8} :
    readByte high low = .ok b ↔
      (Hex.isDigit high = true ∧ Hex.isDigit low = true) ∧ b = UInt8.ofNat (numberOf [high, low]) := by
  simp only [readByte, bind_eq_ok_iff, readDigit_eq_ok_iff, Hex.isDigit_iff, pure, Except.pure,
    Except.ok.injEq]
  constructor
  · rintro ⟨h, hh, l, hl, rfl⟩
    exact ⟨⟨⟨h, hh⟩, l, hl⟩, by simp [numberOf, hh, hl]⟩
  · rintro ⟨⟨⟨h, hh⟩, l, hl⟩, rfl⟩
    exact ⟨h, hh, l, hl, by simp [numberOf, hh, hl]⟩

/-- Pairs are read if all their bytes are digits. -/
theorem readPairs_eq_ok_iff (heven : digits.length % 2 = 0) :
    readPairs digits = .ok data ↔
      (∀ b ∈ digits, Hex.isDigit b = true) ∧ data = bytesOf digits := by
  induction digits using bytesOf.induct generalizing data with
  | case1 high low rest ih =>
    have hrest : rest.length % 2 = 0 := by
      rw [List.length_cons, List.length_cons] at heven
      omega
    simp only [readPairs, bind_eq_ok_iff, readByte_eq_ok_iff, ih hrest, pure, Except.pure,
      Except.ok.injEq, List.forall_mem_cons, bytesOf]
    constructor
    · rintro ⟨_, ⟨⟨hh, hl⟩, rfl⟩, _, ⟨hds, rfl⟩, rfl⟩
      exact ⟨⟨hh, hl, hds⟩, rfl⟩
    · rintro ⟨⟨hh, hl, hds⟩, rfl⟩
      exact ⟨_, ⟨⟨hh, hl⟩, rfl⟩, _, ⟨hds, rfl⟩, rfl⟩
  | case2 ds hne =>
    obtain _ | ⟨high, _ | ⟨low, rest⟩⟩ := ds
    · rw [show readPairs [] = .ok [] from rfl, Except.ok.injEq, show bytesOf [] = [] from rfl, eq_comm]
      simp
    · simp at heven
    · exact absurd rfl (hne high low rest)

/-! ### The parts of a text -/

theorem readIdentifier_eq_ok_iff :
    readIdentifier digits = .ok n ↔
      digits.length = identifierDigits ∧ (∀ b ∈ digits, Hex.isDigit b = true) ∧
        n = numberOf digits ∧ n < Identifier.bound := by
  rw [readIdentifier]
  split
  · rename_i hlength
    simp only [hlength, bind_eq_ok_iff, readNumber_eq_ok_iff, true_and]
    constructor
    · rintro ⟨_, ⟨hds, rfl⟩, hid⟩
      split at hid
      · rename_i hlt
        cases hid
        exact ⟨hds, rfl, hlt⟩
      · cases hid
    · rintro ⟨hds, rfl, hlt⟩
      exact ⟨_, ⟨hds, rfl⟩, if_pos hlt⟩
  · rename_i hlength
    simp [hlength]

theorem readData_eq_ok_iff :
    readData digits = .ok data ↔
      digits.length % 2 = 0 ∧ digits.length ≤ maxDataDigits ∧
        (∀ b ∈ digits, Hex.isDigit b = true) ∧ data = bytesOf digits := by
  rw [readData]
  split
  · rename_i hodd
    simp [hodd]
  · rename_i heven
    replace heven := not_not.1 heven
    split
    · rename_i hlong
      simp [Nat.not_le.2 hlong]
    · rename_i hshort
      rw [readPairs_eq_ok_iff heven]
      simp [heven, Nat.le_of_not_lt hshort]

theorem readFormat_eq_ok_iff {u : Unit} : readFormat b = .ok u ↔ b = normal := by
  rw [readFormat]
  split <;> simp [*]

theorem readIdKind_eq_ok_iff {u : Unit} : readIdKind b = .ok u ↔ b = extended := by
  rw [readIdKind]
  split <;> simp [*]

/-- The digits of the identifier end at the letter of the frame. -/
theorem split_at_normal (hids : ∀ b ∈ ids, Hex.isDigit b = true) (data : List UInt8) :
    (ids ++ normal :: data).takeWhile Hex.isDigit = ids ∧
      (ids ++ normal :: data).dropWhile Hex.isDigit = normal :: data := by
  have hnormal : Hex.isDigit normal = false := by decide
  constructor
  · rw [List.takeWhile_append_of_pos hids, List.takeWhile_cons_of_neg (by simp [hnormal]),
      List.append_nil]
  · rw [List.dropWhile_append_of_pos hids, List.dropWhile_cons_of_neg (by simp [hnormal])]

/-- What stands between `X` and the semicolon. -/
structure Body (ids data : List UInt8) : Prop where
  length_ids : ids.length = identifierDigits
  even_data : data.length % 2 = 0
  length_data : data.length ≤ maxDataDigits
  digits : ∀ b ∈ ids ++ data, Hex.isDigit b = true
  id_lt : numberOf ids < Identifier.bound

/-- The bytes between `X` and the semicolon are read if they are digits in the right numbers. -/
theorem readBody_eq_ok_iff :
    readBody body = .ok f ↔ ∃ ids data, body = ids ++ normal :: data ∧ Body ids data ∧
      f.id = numberOf ids ∧ f.payload = bytesOf data := by
  constructor
  · intro h
    rw [readBody] at h
    split at h
    · cases h
    · rename_i format digits hdrop
      simp only [bind_eq_ok_iff, readIdentifier_eq_ok_iff, readFormat_eq_ok_iff,
        readData_eq_ok_iff] at h
      obtain ⟨id, ⟨hlength, hids, rfl, hlt⟩, -, rfl, data, ⟨heven, hle, hdata, rfl⟩, hf⟩ := h
      split at hf
      · rename_i g hg
        cases hf
        obtain ⟨hid, hpayload⟩ := Frame.ofId?_eq_some_iff.1 hg
        refine ⟨body.takeWhile Hex.isDigit, digits, ?_, ⟨hlength, heven, hle, ?_, hlt⟩, hid, hpayload⟩
        · rw [← hdrop, List.takeWhile_append_dropWhile]
        · exact List.forall_mem_append.2 ⟨hids, hdata⟩
      · cases hf
  · rintro ⟨ids, data, rfl, hbody, hid, hpayload⟩
    obtain ⟨hids, hdata⟩ := List.forall_mem_append.1 hbody.digits
    obtain ⟨htake, hdrop⟩ := split_at_normal hids data
    rw [readBody, hdrop, htake]
    simp only [bind_eq_ok_iff, readIdentifier_eq_ok_iff, readFormat_eq_ok_iff, readData_eq_ok_iff]
    refine ⟨_, ⟨hbody.length_ids, hids, rfl, hbody.id_lt⟩, (), trivial, _,
      ⟨hbody.even_data, hbody.length_data, hdata, rfl⟩, ?_⟩
    rw [Frame.ofId?_eq_some_iff.2 ⟨hid, hpayload⟩]
    rfl

/-! ### Whole texts -/

theorem decode_eq_ok_iff_body :
    decode text = .ok f ↔
      ∃ body, text = start :: extended :: (body ++ [terminator]) ∧ readBody body = .ok f := by
  match text with
  | [] => simp [decode]
  | [b] =>
    rw [decode]
    split <;> simp
  | b :: kind :: rest =>
    rw [decode]
    split
    · rename_i hb
      simp [hb]
    · rename_i hb
      obtain rfl := not_not.1 hb
      rw [bind_eq_ok_iff]
      simp only [readIdKind_eq_ok_iff]
      constructor
      · rintro ⟨-, rfl, hrest⟩
        split at hrest
        · rename_i hlast
          obtain ⟨ys, rfl⟩ := List.getLast?_eq_some_iff.1 hlast
          exact ⟨ys, rfl, by rwa [List.dropLast_concat] at hrest⟩
        · cases hrest
      · rintro ⟨body, heq, hbody⟩
        obtain ⟨rfl, rfl⟩ : kind = extended ∧ rest = body ++ [terminator] := by simpa using heq
        refine ⟨(), rfl, ?_⟩
        rw [if_pos List.getLast?_concat, List.dropLast_concat]
        exact hbody

/-- A text is read if it spells a frame. -/
theorem decode_eq_ok_iff : decode text = .ok f ↔ Spells text f := by
  simp only [decode_eq_ok_iff_body, readBody_eq_ok_iff]
  constructor
  · rintro ⟨_, rfl, ids, data, rfl, hbody, hid, hpayload⟩
    have htext : start :: extended :: (ids ++ normal :: data ++ [terminator]) =
        [start, extended] ++ ids ++ [normal] ++ data ++ [terminator] := by simp
    rw [htext]
    exact .intro ids data f hbody.length_ids hbody.even_data hbody.digits hid hpayload
  · rintro ⟨ids, data, f, hids, heven, hdigits, hid, hpayload⟩
    refine ⟨ids ++ normal :: data, by simp, ids, data, rfl, ⟨hids, heven, ?_, hdigits, ?_⟩, hid,
      hpayload⟩
    -- the bounds are those of the frame
    · have hle := f.length_le
      rw [hpayload, length_bytesOf] at hle
      unfold maxDataDigits
      omega
    · exact hid ▸ f.id_lt

/-- The frame that a text spells is written as the text in upper case. -/
theorem Spells.encode_eq (h : Spells text f) : encode f = text.map Hex.upper := by
  obtain ⟨ids, data, f, hids, heven, hdigits, hid, hpayload⟩ := h
  obtain ⟨hid', hdata⟩ := List.forall_mem_append.1 hdigits
  have hnumber : Hex.digits identifierDigits f.id = ids.map Hex.upper := by
    rw [hid, ← digits_numberOf hid', hids, identifierDigits]
  have hbytes : Hex.ofBytes f.payload = data.map Hex.upper := by
    rw [hpayload, ofBytes_bytesOf heven hdata]
  have hletters : [start, extended].map Hex.upper = [start, extended] ∧
      [normal].map Hex.upper = [normal] ∧ [terminator].map Hex.upper = [terminator] := by decide
  simp only [encode, List.map_append, hnumber, hbytes, hletters]

/-- What is written spells the frame. -/
theorem spells_encode (f : Frame) : Spells (encode f) f := by
  have hdigits : ∀ k n, ∀ b ∈ Hex.digits k n, Hex.isDigit b = true := by
    intro k
    induction k with
    | zero => simp [Hex.digits]
    | succ k ih =>
      intro n
      exact List.forall_mem_append.2 ⟨ih _, by simp⟩
  have hbytes : ∀ b ∈ Hex.ofBytes f.payload, Hex.isDigit b = true := by
    intro b hb
    obtain ⟨c, -, hc⟩ := List.mem_flatMap.1 hb
    rcases List.mem_cons.1 hc with rfl | hc
    · exact Hex.isDigit_digit _
    · rw [List.mem_singleton.1 hc]
      exact Hex.isDigit_digit _
  refine .intro _ _ f (Hex.length_digits _ _) ?_ (List.forall_mem_append.2 ⟨hdigits _ _, hbytes⟩) ?_
    (bytesOf_ofBytes f.payload).symm
  · rw [Hex.length_ofBytes, Nat.mul_mod_right]
  · rw [numberOf_digits]
    exact (Nat.mod_eq_of_lt (Nat.lt_of_lt_of_le f.id_lt (by decide))).symm

/-- The texts of the grammar: a colon, `X`, eight digits of at most 29 bits, `N`, the digits of at
most eight bytes, and a semicolon. -/
def Spelling (text : List UInt8) : Prop :=
  ∃ ids data, text = [start, extended] ++ ids ++ [normal] ++ data ++ [terminator] ∧
    ids.length = 8 ∧ data.length % 2 = 0 ∧ data.length ≤ 16 ∧
    (∀ b ∈ ids ++ data, Hex.isDigit b = true) ∧ numberOf ids ≤ 0x1FFFFFFF

/-- A text of the grammar spells a frame. -/
theorem spelling_iff : Spelling text ↔ ∃ f, Spells text f := by
  constructor
  · rintro ⟨ids, data, rfl, hids, heven, hle, hdigits, hid⟩
    have hlength : (bytesOf data).length ≤ 8 := by
      rw [length_bytesOf]
      omega
    exact ⟨⟨numberOf ids, bytesOf data, Nat.lt_succ_of_le hid, hlength⟩,
      .intro ids data _ hids heven hdigits rfl rfl⟩
  · rintro ⟨f, ids, data, f, hids, heven, hdigits, hid, hpayload⟩
    have hle := f.length_le
    rw [hpayload, length_bytesOf] at hle
    exact ⟨ids, data, rfl, hids, heven, by omega, hdigits, hid ▸ Nat.le_of_lt_succ f.id_lt⟩

/-- **Exactness.** A text is read as a frame if and only if it spells it, and then the frame is
written as the text with its digits in upper case.  The texts that are read as some frame are those
of the grammar.  Every frame is written in at most 28 bytes, and read back. -/
theorem decode_exact (text : List UInt8) (f : Frame) :
    (decode text = .ok f ↔ Spells text f ∧ encode f = text.map Hex.upper) ∧
      ((∃ g, decode text = .ok g) ↔ Spelling text) ∧
      decode (encode f) = .ok f ∧ (encode f).length ≤ maxLength := by
  refine ⟨?_, ?_, decode_eq_ok_iff.2 (spells_encode f), ?_⟩
  · rw [decode_eq_ok_iff]
    exact ⟨fun h => ⟨h, h.encode_eq⟩, And.left⟩
  · rw [spelling_iff]
    exact exists_congr fun g => decode_eq_ok_iff
  · have hle := f.length_le
    rw [length_encode, maxLength]
    omega

end LayoutBus.GridConnect
