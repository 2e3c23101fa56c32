import LayoutBus.GridConnect.Decoder
import LayoutBus.Proofs.GridConnect.Grammar

/-!
# The stream and the whole text

A decoder checks a text while the bytes come in, and it checks only some of the grammar on the way.
Still it answers with a frame exactly when the bytes since the last colon are the text of this frame.

* `GridConnect.sinceStart` : the bytes since the last colon.
* `GridConnect.Decoder.Follows` : what a decoder knows of these bytes.  A decoder that waits for a
  colon knows that no text starts with them and goes on.
* `GridConnect.Decoder.Follows.push` : one byte.
* `GridConnect.Decoder.Reachable.resynchronizes` : **the stream.**  After a colon the decoder and the
  reader of whole texts agree, whatever came before.
-/

namespace LayoutBus.GridConnect

variable {text rest ids ds ys us vs : List UInt8} {b c : UInt8} {f g : Frame} {e : Error}

/-- The bytes from the last colon on; all bytes if there is none. -/
def sinceStart (bytes : List UInt8) : List UInt8 :=
  bytes.foldl (fun text b => if b = start then [b] else text ++ [b]) []

theorem sinceStart_concat (bytes : List UInt8) (b : UInt8) :
    sinceStart (bytes ++ [b]) = if b = start then [b] else sinceStart bytes ++ [b] :=
  List.foldl_append

/-! ### Where the parts of a text end -/

/-- Digits up to a byte that is none can be split off in one way only. -/
theorem split_unique (hids : ∀ x ∈ ids, Hex.isDigit x = true) (hb : Hex.isDigit b = false)
    (hys : ∀ x ∈ ys, Hex.isDigit x = true) (hc : Hex.isDigit c = false)
    (h : ids ++ b :: us = ys ++ c :: vs) : ids = ys ∧ b = c ∧ us = vs := by
  have htake := congrArg (List.takeWhile Hex.isDigit) h
  rw [List.takeWhile_append_of_pos hids, List.takeWhile_append_of_pos hys,
    List.takeWhile_cons_of_neg (by simp [hb]), List.takeWhile_cons_of_neg (by simp [hc]),
    List.append_nil, List.append_nil] at htake
  subst htake
  exact ⟨rfl, List.cons.inj (List.append_cancel_left h)⟩

/-- A text without its colon. -/
theorem Spells.tail (h : Spells text f) : ∃ rest, text = start :: rest ∧ start ∉ rest := by
  obtain ⟨ids, data, f, -, -, hdigits, -, -⟩ := h
  refine ⟨extended :: ids ++ [normal] ++ data ++ [terminator], rfl, fun hmem => ?_⟩
  have hstart : Hex.isDigit start = false := by decide
  have hnot : start ∉ ids ++ data := fun hmem => by
    rw [hdigits _ hmem] at hstart
    cases hstart
  simp only [List.mem_append, not_or, List.mem_cons, List.not_mem_nil, or_false] at hnot hmem
  rcases hmem with (((h | h) | h) | h) | h
  · exact absurd h (by decide)
  · exact hnot.1 h
  · exact absurd h (by decide)
  · exact hnot.2 h
  · exact absurd h (by decide)

/-- A text goes on with `X`. -/
theorem Spells.kind (h : Spells (start :: b :: rest) f) : b = extended := by
  generalize htext : start :: b :: rest = text at h
  obtain ⟨ids, data, f, -⟩ := h
  exact (List.cons.inj (List.cons.inj htext).2).1

/-- What stands between `X` and the end of a text. -/
theorem Spells.body (h : Spells (start :: extended :: rest) f) :
    ∃ ids data, rest = ids ++ normal :: (data ++ [terminator]) ∧ ids.length = identifierDigits ∧
      (∀ x ∈ ids, Hex.isDigit x = true) ∧ ∀ x ∈ data, Hex.isDigit x = true := by
  generalize htext : start :: extended :: rest = text at h
  obtain ⟨ids, data, f, hids, -, hdigits, -⟩ := h
  obtain ⟨hid, hdata⟩ := List.forall_mem_append.1 hdigits
  exact ⟨ids, data, by simpa using htext, hids, hid, hdata⟩

/-- The data of a text end at the semicolon, and nothing follows it. -/
theorem Spells.data (hids : ∀ x ∈ ids, Hex.isDigit x = true) (hc : Hex.isDigit c = false)
    (h : Spells (start :: extended :: (ids ++ c :: rest)) f) :
    ∃ data, rest = data ++ [terminator] ∧ ∀ x ∈ data, Hex.isDigit x = true := by
  obtain ⟨ids', data, hbody, -, hids', hdata⟩ := h.body
  obtain ⟨-, -, rfl⟩ := split_unique hids hc hids' (by decide) hbody
  exact ⟨data, rfl, hdata⟩

theorem Spells.length_le (h : Spells text f) : text.length ≤ maxLength := by
  obtain ⟨ids, data, f, hids, heven, -, -, hpayload⟩ := h
  have hle := f.length_le
  rw [hpayload, length_bytesOf] at hle
  simp only [List.length_append, List.length_cons, List.length_nil, maxLength, hids]
  omega

/-- No text starts with these bytes. -/
def Hopeless (text : List UInt8) : Prop := ∀ rest f, ¬ Spells (text ++ rest) f

/-- No text starts with these bytes and goes on. -/
def Closed (text : List UInt8) : Prop := ∀ b, Hopeless (text ++ [b])

theorem Hopeless.closed (h : Hopeless text) : Closed text := by
  intro b rest f hspells
  rw [List.append_assoc] at hspells
  exact h _ f hspells

theorem Hopeless.decode_ne (h : Hopeless text) (f : Frame) : decode text ≠ .ok f := fun hok =>
  h [] f ((List.append_nil text).symm ▸ decode_eq_ok_iff.1 hok)

theorem hopeless_of_length (h : maxLength < text.length) : Hopeless text := by
  intro rest f hspells
  have hle := hspells.length_le
  rw [List.length_append] at hle
  omega

/-- An identifier has eight digits. -/
theorem hopeless_of_identifier (hlength : ids.length = identifierDigits) (hb : Hex.isDigit b = true) :
    Hopeless (start :: extended :: (ids ++ [b])) := by
  intro rest f hspells
  rw [List.cons_append, List.cons_append, List.append_assoc] at hspells
  obtain ⟨ids', data, hbody, hids', -⟩ := hspells.body
  obtain ⟨-, htail⟩ := List.append_inj hbody (hlength.trans hids'.symm)
  obtain rfl : b = normal := (List.cons.inj htail).1
  cases hb

/-- The data are digits. -/
theorem hopeless_of_data (hids : ∀ x ∈ ids, Hex.isDigit x = true) (hc : Hex.isDigit c = false)
    (hds : ∀ x ∈ ds, Hex.isDigit x = true) (hb : Hex.isDigit b = false) (hne : b ≠ terminator) :
    Hopeless (start :: extended :: (ids ++ c :: (ds ++ [b]))) := by
  intro rest f hspells
  rw [List.cons_append, List.cons_append, List.append_assoc, List.cons_append, List.append_assoc]
    at hspells
  obtain ⟨data, hdata, hdigits⟩ := hspells.data hids hc
  exact hne (split_unique hds hb hdigits (by decide) hdata).2.1

/-- The semicolon is the last byte. -/
theorem closed_of_terminator (hids : ∀ x ∈ ids, Hex.isDigit x = true) (hc : Hex.isDigit c = false)
    (hds : ∀ x ∈ ds, Hex.isDigit x = true) :
    Closed (start :: extended :: (ids ++ c :: (ds ++ [terminator]))) := by
  intro b rest f hspells
  rw [List.append_assoc, List.cons_append, List.cons_append, List.append_assoc, List.cons_append,
    List.append_assoc] at hspells
  obtain ⟨data, hdata, hdigits⟩ := hspells.data hids hc
  cases (split_unique hds (by decide) hdigits (by decide) hdata).2.2

/-- Digits and nothing else behind `X` are no text yet. -/
theorem not_spells_of_header (hids : ∀ x ∈ ids, Hex.isDigit x = true) :
    ¬ Spells (start :: extended :: ids) f := by
  intro hspells
  obtain ⟨ids', data, rfl, -⟩ := hspells.body
  have hnormal := hids normal (by simp)
  cases hnormal

theorem not_spells_start : ¬ Spells [start] f := by
  rw [← decode_eq_ok_iff]
  simp [decode]

/-- Without its semicolon a text is none. -/
theorem not_spells_of_data (hids : ∀ x ∈ ids, Hex.isDigit x = true) (hc : Hex.isDigit c = false)
    (hds : ∀ x ∈ ds, Hex.isDigit x = true) : ¬ Spells (start :: extended :: (ids ++ c :: ds)) f := by
  intro hspells
  obtain ⟨data, rfl, -⟩ := hspells.data hids hc
  have hterminator := hds terminator (by simp)
  cases hterminator

namespace Decoder

variable {d : Decoder} {bytes : List UInt8} {answer : Except Error Frame}

/-! ### One byte -/

/-- What a decoder knows of the bytes since the last colon. -/
inductive Follows : Decoder → List UInt8 → Prop where
  | idle {text : List UInt8} : Closed text → Follows idle text
  | colon : Follows (header [start]) [start]
  | header {ids : List UInt8} : ids.length ≤ identifierDigits →
      (∀ x ∈ ids, Hex.isDigit x = true) →
      Follows (header (start :: extended :: ids)) (start :: extended :: ids)
  | data {ids ds : List UInt8} {c : UInt8} : (∀ x ∈ ids, Hex.isDigit x = true) →
      Hex.isDigit c = false → (∀ x ∈ ds, Hex.isDigit x = true) →
      Follows (data (start :: extended :: (ids ++ c :: ds))) (start :: extended :: (ids ++ c :: ds))

/-- What the decoder makes of one more byte: it follows the text, and it answers with a frame exactly
when the text is complete. -/
structure Reads (text : List UInt8) (o : Decoder × Answer) : Prop where
  follows : o.1.Follows text
  ok_iff : ∀ f, o.2 = some (.ok f) ↔ decode text = .ok f

theorem reads_fail (h : Hopeless text) : Reads text (fail e) where
  follows := .idle h.closed
  ok_iff f := iff_of_false (by simp [fail]) (h.decode_ne f)

/-- The decoder waits for more. -/
theorem reads_none (hd : d.Follows text) (h : ∀ f, ¬ Spells text f) : Reads text (d, none) where
  follows := hd
  ok_iff f := iff_of_false (by simp) fun hok => h f (decode_eq_ok_iff.1 hok)

theorem keep_of_lt (part : List UInt8 → Decoder) (h : text.length < maxLength) :
    keep part text b = (part (text ++ [b]), none) := by
  rw [keep, store?, if_pos h]

theorem keep_of_le (part : List UInt8 → Decoder) (h : maxLength ≤ text.length) :
    keep part text b = fail (.tooManyDataBytes (maxDataDigits / 2 + 1)) := by
  rw [keep, store?, if_neg (Nat.not_lt.2 h)]

theorem reads_keep {part : List UInt8 → Decoder} (hd : (part (text ++ [b])).Follows (text ++ [b]))
    (h : ∀ f, ¬ Spells (text ++ [b]) f) : Reads (text ++ [b]) (keep part text b) := by
  rcases Nat.lt_or_ge text.length maxLength with hroom | hlong
  · rw [keep_of_lt part hroom]
    exact reads_none hd h
  · rw [keep_of_le part hlong]
    refine reads_fail (hopeless_of_length ?_)
    rw [List.length_append, List.length_singleton]
    omega

/-- A semicolon ends the text, which is read as a whole. -/
theorem reads_terminator (hclosed : Closed (text ++ [terminator])) :
    Reads (text ++ [terminator])
      (match store? text terminator with
        | some text => (idle, some (decode text))
        | none => fail .missingTerminator) := by
  rcases Nat.lt_or_ge text.length maxLength with hroom | hlong
  · rw [store?, if_pos hroom]
    exact ⟨.idle hclosed, fun f => by rw [Option.some.injEq]⟩
  · rw [store?, if_neg (Nat.not_lt.2 hlong)]
    refine reads_fail (hopeless_of_length ?_)
    rw [List.length_append, List.length_singleton]
    omega

/-- The byte after the colon. -/
theorem reads_colon (hb : b ≠ start) : Reads [start, b] ((header [start]).push b) := by
  rw [push, if_neg hb]
  simp only [List.length_singleton, if_true, readIdKind]
  by_cases hkind : b = extended
  · subst hkind
    have hnone : ∀ x ∈ ([] : List UInt8), Hex.isDigit x = true := List.forall_mem_nil _
    have hfollows : (header ([start] ++ [extended])).Follows ([start] ++ [extended]) :=
      .header (Nat.zero_le _) hnone
    exact reads_keep hfollows fun f => not_spells_of_header hnone
  · rw [if_neg hkind]
    exact reads_fail fun rest f hspells => hkind hspells.kind

/-- A byte of the identifier, or the one behind it. -/
theorem reads_header (hb : b ≠ start) (hlength : ids.length ≤ identifierDigits)
    (hids : ∀ x ∈ ids, Hex.isDigit x = true) :
    Reads (start :: extended :: ids ++ [b]) ((header (start :: extended :: ids)).push b) := by
  have hone : ¬ (start :: extended :: ids).length = 1 := by simp
  rw [push, if_neg hb]
  simp only [if_neg hone]
  by_cases hdigit : Hex.isDigit b = true
  · rw [if_neg (not_not.2 hdigit)]
    have hconcat : ∀ x ∈ ids ++ [b], Hex.isDigit x = true :=
      List.forall_mem_append.2 ⟨hids, by simpa using hdigit⟩
    by_cases hfull : ids.length = identifierDigits
    · rw [if_pos (by simp only [List.length_cons]; omega)]
      exact reads_fail (hopeless_of_identifier hfull hdigit)
    · rw [if_neg (by simp only [List.length_cons]; omega)]
      have hlength' : (ids ++ [b]).length ≤ identifierDigits := by
        rw [List.length_append, List.length_singleton]
        omega
      exact reads_keep (.header hlength' hconcat) fun f => not_spells_of_header hconcat
  · have hnot : Hex.isDigit b = false := Bool.not_eq_true _ ▸ hdigit
    rw [if_pos hdigit]
    have hnone : ∀ x ∈ ([] : List UInt8), Hex.isDigit x = true := List.forall_mem_nil _
    exact reads_keep (.data hids hnot hnone) fun f => not_spells_of_data hids hnot hnone

/-- A byte of the data, or the semicolon. -/
theorem reads_data (hb : b ≠ start) (hids : ∀ x ∈ ids, Hex.isDigit x = true)
    (hc : Hex.isDigit c = false) (hds : ∀ x ∈ ds, Hex.isDigit x = true) :
    Reads (start :: extended :: (ids ++ c :: ds) ++ [b])
      ((data (start :: extended :: (ids ++ c :: ds))).push b) := by
  have htext : start :: extended :: (ids ++ c :: ds) ++ [b] =
      start :: extended :: (ids ++ c :: (ds ++ [b])) := by simp
  rw [push, if_neg hb]
  by_cases hterminator : b = terminator
  · subst hterminator
    simp only [if_true]
    exact reads_terminator (htext.symm ▸ closed_of_terminator hids hc hds)
  · simp only [if_neg hterminator]
    by_cases hdigit : Hex.isDigit b = true
    · rw [if_neg (not_not.2 hdigit)]
      have hconcat : ∀ x ∈ ds ++ [b], Hex.isDigit x = true :=
        List.forall_mem_append.2 ⟨hds, by simpa using hdigit⟩
      refine reads_keep ?_ fun f => ?_
      · rw [htext]
        exact .data hids hc hconcat
      · rw [htext]
        exact not_spells_of_data hids hc hconcat
    · rw [if_pos hdigit, htext]
      exact reads_fail (hopeless_of_data hids hc hds (Bool.not_eq_true _ ▸ hdigit) hterminator)

/-- One byte that is no colon. -/
theorem Follows.push (hd : d.Follows text) (hb : b ≠ start) : Reads (text ++ [b]) (d.push b) := by
  cases hd with
  | idle hclosed =>
    rw [Decoder.push, if_neg hb]
    exact reads_none (.idle (hclosed b).closed) fun f hspells =>
      hclosed b [] f ((List.append_nil _).symm ▸ hspells)
  | colon => exact reads_colon hb
  | header hlength hids => exact reads_header hb hlength hids
  | data hids hc hds => exact reads_data hb hids hc hds

theorem push_start (d : Decoder) : d.push start = (header [start], none) := if_pos rfl

/-- A decoder that has answered waits for a colon, and another has room for its bytes. -/
theorem push_cases (d : Decoder) (b : UInt8) :
    (d.push b).1 = idle ∨ (d.push b).2 = none ∧ (d.push b).1.seen.length ≤ maxLength := by
  have hkeep : ∀ part : List UInt8 → Decoder, (∀ bytes, (part bytes).seen = bytes) → ∀ bytes,
      (keep part bytes b).1 = idle ∨
        (keep part bytes b).2 = none ∧ (keep part bytes b).1.seen.length ≤ maxLength := by
    intro part hpart bytes
    rcases Nat.lt_or_ge bytes.length maxLength with hroom | hlong
    · rw [keep_of_lt part hroom, hpart, List.length_append]
      exact .inr ⟨rfl, hroom⟩
    · rw [keep_of_le part hlong]
      exact .inl rfl
  by_cases hb : b = start
  · rw [hb, push_start]
    exact .inr ⟨rfl, by decide⟩
  · cases d with
    | idle =>
      rw [push, if_neg hb]
      exact .inl rfl
    | header bytes =>
      rw [push, if_neg hb]
      split
      · split
        · exact hkeep header (fun _ => rfl) bytes
        · exact .inl rfl
      · split
        · exact hkeep data (fun _ => rfl) bytes
        · split
          · exact .inl rfl
          · exact hkeep header (fun _ => rfl) bytes
    | data bytes =>
      rw [push, if_neg hb]
      split
      · split <;> exact .inl rfl
      · split
        · exact .inl rfl
        · exact hkeep data (fun _ => rfl) bytes

/-! ### A stream -/

theorem feed_cons (d : Decoder) (b : UInt8) (bytes : List UInt8) :
    d.feed (b :: bytes) =
      (((d.push b).1.feed bytes).1, (d.push b).2 :: ((d.push b).1.feed bytes).2) :=
  rfl

theorem feed_concat (d : Decoder) (bytes : List UInt8) (b : UInt8) :
    (d.feed (bytes ++ [b])).1 = ((d.feed bytes).1.push b).1 := by
  induction bytes generalizing d with
  | nil => rfl
  | cons c bytes ih => exact ih (d.push c).1

/-- After a colon a decoder follows the bytes since the last one. -/
theorem follows_feed (d : Decoder) (h : start ∈ bytes) : (d.feed bytes).1.Follows (sinceStart bytes) := by
  induction bytes using List.reverseRecOn with
  | nil => cases h
  | append_singleton bytes b ih =>
    rw [feed_concat, sinceStart_concat]
    by_cases hb : b = start
    · rw [if_pos hb, hb, push_start]
      exact .colon
    · rw [if_neg hb]
      have hmem : start ∈ bytes := by simpa [Ne.symm hb] using h
      exact ((ih hmem).push hb).follows

/-- After a colon the decoder answers a byte with a frame exactly when the bytes since the last colon
are its text. -/
theorem push_feed (d : Decoder) (h : start ∈ bytes ++ [b]) :
    ((d.feed bytes).1.push b).2 = some (.ok f) ↔ decode (sinceStart (bytes ++ [b])) = .ok f := by
  rw [sinceStart_concat]
  by_cases hb : b = start
  · rw [if_pos hb, hb, push_start]
    exact iff_of_false (by simp) (by simp [decode])
  · rw [if_neg hb]
    have hmem : start ∈ bytes := by simpa [Ne.symm hb] using h
    exact ((follows_feed d hmem).push hb).ok_iff f

theorem feed_idle (h : start ∉ bytes) :
    idle.feed bytes = (idle, List.replicate bytes.length none) := by
  induction bytes with
  | nil => rfl
  | cons b bytes ih =>
    rw [List.mem_cons, not_or] at h
    have hpush : idle.push b = (idle, none) := by rw [push, if_neg (Ne.symm h.1)]
    rw [feed_cons, hpush, ih h.2]
    rfl

/-- Without a colon a decoder answers once at most. -/
theorem countP_feed_le (d : Decoder) (h : start ∉ bytes) :
    (d.feed bytes).2.countP Option.isSome ≤ 1 := by
  induction bytes generalizing d with
  | nil => simp [feed]
  | cons b bytes ih =>
    obtain ⟨-, hbytes⟩ := not_or.1 (List.mem_cons.not.1 h)
    rw [feed_cons, List.countP_cons]
    rcases push_cases d b with hidle | ⟨hnone, -⟩
    · have hsilent : (List.replicate bytes.length (none : Answer)).countP Option.isSome = 0 := by
        simp [List.countP_replicate]
      rw [hidle, feed_idle hbytes, hsilent]
      split <;> omega
    · rw [hnone]
      simpa using ih (d.push b).1 hbytes

/-- The rest of a text gets no answer before its last byte, and the last byte gets the frame. -/
theorem Follows.feed (hd : d.Follows text) (hrest : start ∉ rest) (hne : rest ≠ [])
    (h : Spells (text ++ rest) f) :
    (d.feed rest).2 = List.replicate (rest.length - 1) none ++ [some (.ok f)] := by
  induction rest generalizing d text with
  | nil => exact absurd rfl hne
  | cons b rest ih =>
    obtain ⟨hb, hrest⟩ := not_or.1 (List.mem_cons.not.1 hrest)
    have hread := hd.push (Ne.symm hb)
    rw [← List.singleton_append, ← List.append_assoc] at h
    cases rest with
    | nil =>
      rw [List.append_nil, ← decode_eq_ok_iff, ← hread.ok_iff] at h
      simp [Decoder.feed, h]
    | cons c rest =>
      -- an answer now would mean that no text goes on like this
      have hwaits : (d.push b).2 = none := by
        rcases push_cases d b with hidle | ⟨hnone, -⟩
        · have hfollows := hread.follows
          rw [hidle] at hfollows
          cases hfollows with
          | idle hclosed => exact absurd (by simpa using h) (hclosed c rest f)
        · exact hnone
      rw [feed_cons, hwaits, ih hread.follows hrest (List.cons_ne_nil _ _) h]
      simp [List.replicate_succ]

theorem feed_start (d : Decoder) (bytes : List UInt8) :
    (d.feed (start :: bytes)).2 = none :: ((header [start]).feed bytes).2 := by
  rw [feed_cons, push_start]

/-- A text gets no answer before its last byte, whatever came before it. -/
theorem feed_spells (d : Decoder) (h : Spells text f) :
    (d.feed text).2 = List.replicate (text.length - 1) none ++ [some (.ok f)] := by
  obtain ⟨rest, rfl, hrest⟩ := h.tail
  have hne : rest ≠ [] := by
    rintro rfl
    exact not_spells_start h
  rw [feed_start, Follows.colon.feed hrest hne h]
  obtain ⟨b, rest, rfl⟩ := List.exists_cons_of_ne_nil hne
  simp [List.replicate_succ]

/-- The decoders that a stream leads to from a fresh one. -/
inductive Reachable : Decoder → Prop where
  | idle : Reachable idle
  | push {d : Decoder} (b : UInt8) : d.Reachable → Reachable (d.push b).1

theorem Reachable.feed (h : d.Reachable) (bytes : List UInt8) : (d.feed bytes).1.Reachable := by
  induction bytes generalizing d with
  | nil => exact h
  | cons b bytes ih => exact ih (h.push b)

theorem Reachable.length_seen_le (h : d.Reachable) : d.seen.length ≤ maxLength := by
  cases h with
  | idle => decide
  | @push d b _ =>
    rcases push_cases d b with hidle | ⟨-, hle⟩
    · rw [hidle]
      decide
    · exact hle

/-- What a decoder makes of the bytes that come next. -/
structure Resynchronizes (d : Decoder) : Prop where
  /-- From the first colon on, a byte is answered with a frame if and only if the bytes from the last
  colon up to it are the text of this frame. -/
  agrees : ∀ bytes b f, start ∈ bytes ++ [b] →
    (((d.feed bytes).1.push b).2 = some (.ok f) ↔ decode (sinceStart (bytes ++ [b])) = .ok f)
  /-- From a colon to the next there is one answer at most. -/
  once : ∀ bytes run, start ∉ run →
    ((d.feed bytes).1.feed (start :: run)).2.countP Option.isSome ≤ 1
  /-- The bytes kept are never more than those of the longest text. -/
  bounded : ∀ bytes, (d.feed bytes).1.seen.length ≤ maxLength
  /-- The text of a frame is answered at its last byte, with the frame. -/
  recovers : ∀ bytes f, ((d.feed bytes).1.feed (encode f)).2 =
    List.replicate ((encode f).length - 1) none ++ [some (.ok f)]

/-- **The stream.** A decoder finds exactly the frames that stand in the stream, whatever it has read
before. -/
theorem Reachable.resynchronizes (h : d.Reachable) : d.Resynchronizes where
  agrees bytes b f hmem := push_feed d hmem
  once bytes run hrun := by
    rw [feed_start, List.countP_cons_of_neg (by simp)]
    exact countP_feed_le _ hrun
  bounded bytes := (h.feed bytes).length_seen_le
  recovers bytes f := feed_spells _ (spells_encode f)

/-- A decoder that has read garbage and half a text finds the next frame. -/
theorem resynchronizes_truncated :
    Reachable (idle.feed [0x78, terminator, start, extended, 0x31, 0x39]).1 ∧
      Resynchronizes (header [start, extended, 0x31, 0x39]) :=
  have h : Reachable (idle.feed [0x78, terminator, start, extended, 0x31, 0x39]).1 :=
    Reachable.idle.feed _
  ⟨h, h.resynchronizes⟩

end Decoder

end LayoutBus.GridConnect
