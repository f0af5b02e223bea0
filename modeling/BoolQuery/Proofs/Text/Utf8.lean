import BoolQuery.Text.Utf8
import Mathlib.Algebra.Group.Nat.Defs
import Mathlib.Tactic.Common

/-!
# Characters in a String of Bytes

A character is read from its bytes, and only from these. Its first byte tells how many bytes are
behind it, and each of those is one that begins no character, so reading never goes past the first
byte of the next character: whatever stands before a character, ill-formed or cut short, is read
as if the bytes ended there. Thus the characters of a text stand side by side in what some bytes
spell exactly where the bytes of the text stand in them.

## Main definitions

* `Utf8.width`, `Utf8.leadByte`, `Utf8.tail`: the bytes of a character that is not ASCII.
* `Utf8.Lead.Begins`: the code points that a first byte begins.
* `Utf8.isTail`: the bytes that begin no character.

## Main results

* `Utf8.first_eq_some_iff`: a character is read exactly from its bytes.
* `Utf8.pieces_append`: reading does not go past a byte that begins a character.
* `Utf8.pieces_encode_append`: the bytes of a text are read as its characters.
* `Utf8.infix_decodeLossy_iff`: a text occurs where its bytes do.
-/

namespace BoolQuery

namespace Utf8

/-! ### The bytes of a character -/

/-- The number of bytes behind the first one in a character that is not ASCII. -/
def width (n : Nat) : Nat :=
  if n < 0x800 then 1 else if n < 0x10000 then 2 else 3

/-- The first byte of a character that is not ASCII. -/
def leadByte (n : Nat) : UInt8 :=
  UInt8.ofNat (n / 64 ^ width n + (if n < 0x800 then 0xc0 else if n < 0x10000 then 0xe0 else 0xf0))

/-- The last `count` bytes of such a character, each with six bits of the code point. -/
def tail : (count n : Nat) → Bytes
  | 0, _ => []
  | count + 1, n => UInt8.ofNat (n / 64 ^ count % 64 + 0x80) :: tail count n

/-- The bytes of an ASCII character. -/
theorem utf8EncodeChar_ascii {c : Char} (h : c.toNat < 0x80) :
    String.utf8EncodeChar c = [UInt8.ofNat c.toNat] := by
  have h : c.val.toNat ≤ 127 := Nat.le_of_lt_succ h
  simp only [String.utf8EncodeChar, h, if_true]
  rfl

/-- The bytes of any other character. -/
theorem utf8EncodeChar_of_le {c : Char} (h : 0x80 ≤ c.toNat) :
    String.utf8EncodeChar c = leadByte c.toNat :: tail (width c.toNat) c.toNat := by
  have hvalid : c.toNat.isValidChar := c.valid
  have hval : c.val.toNat = c.toNat := rfl
  simp only [String.utf8EncodeChar, hval]
  generalize c.toNat = n at h hvalid
  rw [if_neg (by omega), leadByte, width]
  by_cases h2 : n < 0x800
  · have hbits : n / 64 % 32 = n / 64 ^ 1 := by omega
    rw [if_pos (Nat.le_of_lt_succ h2), if_pos h2, if_pos h2, hbits]
    simp [tail]
  · rw [if_neg (by omega), if_neg h2, if_neg h2]
    by_cases h3 : n < 0x10000
    · have hbits : n / 4096 % 16 = n / 64 ^ 2 := by omega
      rw [if_pos (Nat.le_of_lt_succ h3), if_pos h3, if_pos h3, hbits]
      simp [tail]
    · have hbits : n / 262144 % 8 = n / 64 ^ 3 := by omega
      rw [if_neg (by omega), if_neg h3, if_neg h3, hbits]
      simp [tail]

/-- A byte behind the first one. -/
theorem toNat_tailByte (k : Nat) : (UInt8.ofNat (k % 64 + 0x80)).toNat = k % 64 + 0x80 :=
  UInt8.toNat_ofNat_of_lt' (show _ < 256 by omega)

/-- The bytes behind the first one lie between `0x80` and `0xbf`. -/
theorem mem_tail {count n : Nat} {b : UInt8} (h : b ∈ tail count n) : 0x80 ≤ b ∧ b ≤ 0xbf := by
  induction count with
  | zero => cases h
  | succ count ih =>
      rcases List.mem_cons.mp h with rfl | h
      · simp only [UInt8.le_iff_toNat_le, UInt8.reduceToNat, toNat_tailByte]
        omega
      · exact ih h

/-- The second byte has the six bits behind the upper ones. -/
theorem second_iff {low high : UInt8} {count n : Nat} :
    (∀ b ∈ (tail (count + 1) n).head?, low ≤ b ∧ b ≤ high) ↔
      low.toNat ≤ n / 64 ^ count % 64 + 0x80 ∧ n / 64 ^ count % 64 + 0x80 ≤ high.toNat := by
  simp only [tail, List.head?_cons, Option.mem_some_iff, forall_eq', UInt8.le_iff_toNat_le,
    toNat_tailByte]

/-- A first byte of a character of several bytes begins the code point `n`: it has the upper bits,
and the second byte is one that it allows. -/
structure Lead.Begins (lead : Lead) (n : Nat) : Prop where
  /-- The upper bits. -/
  bits : n / 64 ^ lead.count = lead.bits
  /-- The second byte. -/
  second : ∀ b ∈ (tail lead.count n).head?, lead.low ≤ b ∧ b ≤ lead.high

/-- The first byte of a character of two bytes. -/
theorem leadByte_of_lt {n : Nat} (h : n < 0x800) :
    width n = 1 ∧ (leadByte n).toNat = n / 64 + 0xc0 := by
  have hwidth : width n = 1 := if_pos h
  refine ⟨hwidth, ?_⟩
  rw [leadByte, hwidth, if_pos h, UInt8.toNat_ofNat_of_lt' (show _ < 256 by omega)]
  omega

/-- The first byte of a character of three bytes. -/
theorem leadByte_of_le_of_lt {n : Nat} (h : 0x800 ≤ n) (h' : n < 0x10000) :
    width n = 2 ∧ (leadByte n).toNat = n / 4096 + 0xe0 := by
  have hwidth : width n = 2 := by rw [width, if_neg (Nat.not_lt.mpr h), if_pos h']
  refine ⟨hwidth, ?_⟩
  rw [leadByte, hwidth, if_neg (Nat.not_lt.mpr h), if_pos h',
    UInt8.toNat_ofNat_of_lt' (show _ < 256 by omega)]
  omega

/-- The first byte of a character of four bytes. -/
theorem leadByte_of_le {n : Nat} (h : 0x10000 ≤ n) (h' : n < 0x110000) :
    width n = 3 ∧ (leadByte n).toNat = n / 262144 + 0xf0 := by
  have hwidth : width n = 3 := by
    rw [width, if_neg (by omega), if_neg (Nat.not_lt.mpr h)]
  refine ⟨hwidth, ?_⟩
  rw [leadByte, hwidth, if_neg (by omega), if_neg (Nat.not_lt.mpr h),
    UInt8.toNat_ofNat_of_lt' (show _ < 256 by omega)]
  omega

/-- The first bytes by the number of bytes behind them. -/
theorem Lead.ofByte?_eq (b : UInt8) : ofByte? b =
    if b < 0xc2 then none
    else if b < 0xe0 then some { bits := b.toNat - 0xc0, count := 1 }
    else if b < 0xf0 then some {
      bits := b.toNat - 0xe0, count := 2
      low := if b = 0xe0 then 0xa0 else 0x80, high := if b = 0xed then 0x9f else 0xbf }
    else if b < 0xf5 then some {
      bits := b.toNat - 0xf0, count := 3
      low := if b = 0xf0 then 0x90 else 0x80, high := if b = 0xf4 then 0x8f else 0xbf }
    else none := by
  rw [ofByte?]
  split
  · rfl
  split
  · rfl
  split
  · next h => subst h; rfl
  split
  · next h => subst h; rfl
  split
  · rfl
  split
  · next h => subst h; rfl
  split
  · next h => subst h; rfl
  · next hne =>
    have hlt : b < 0xf5 ↔ b < 0xf4 := by
      have hne : b.toNat ≠ 244 := fun h => hne (UInt8.toNat_inj.mp h)
      simp only [UInt8.lt_iff_toNat_lt, UInt8.reduceToNat]
      omega
    simp only [hlt]

/-- **A first byte begins the code points of which it is the first byte.** -/
theorem Lead.Begins.eq_leadByte {b : UInt8} {lead : Lead} {n : Nat} (hlead : ofByte? b = some lead)
    (h : lead.Begins n) : 0x80 ≤ n ∧ n.isValidChar ∧ width n = lead.count ∧ b = leadByte n := by
  obtain ⟨hbits, hsecond⟩ := h
  rw [← UInt8.toNat_inj]
  simp only [ofByte?_eq, UInt8.lt_iff_toNat_lt, ← UInt8.toNat_inj, UInt8.reduceToNat] at hlead
  split at hlead
  · cases hlead
  split at hlead
  · obtain rfl := Option.some.inj hlead
    dsimp only at hbits ⊢
    obtain ⟨hwidth, hbyte⟩ := leadByte_of_lt (show n < 0x800 by omega)
    exact ⟨by omega, .inl (by omega), hwidth, by omega⟩
  split at hlead
  · obtain rfl := Option.some.inj hlead
    simp only [second_iff, apply_ite UInt8.toNat, UInt8.reduceToNat] at hbits hsecond ⊢
    obtain ⟨hlow, hhigh⟩ := hsecond
    have hle : 0x800 ≤ n := by split at hlow <;> omega
    have hlt : n < 0x10000 := by omega
    have hvalid : n < 0xd800 ∨ 0xdfff < n := by split at hhigh <;> omega
    obtain ⟨hwidth, hbyte⟩ := leadByte_of_le_of_lt hle hlt
    exact ⟨by omega, hvalid.imp_right fun h => ⟨h, by omega⟩, hwidth, by omega⟩
  split at hlead
  · obtain rfl := Option.some.inj hlead
    simp only [second_iff, apply_ite UInt8.toNat, UInt8.reduceToNat] at hbits hsecond ⊢
    obtain ⟨hlow, hhigh⟩ := hsecond
    have hle : 0x10000 ≤ n := by split at hlow <;> omega
    have hlt : n < 0x110000 := by split at hhigh <;> omega
    obtain ⟨hwidth, hbyte⟩ := leadByte_of_le hle hlt
    exact ⟨by omega, .inr ⟨by omega, hlt⟩, hwidth, by omega⟩
  · cases hlead

/-- **Every character that is not ASCII has a first byte.** -/
theorem Lead.exists_begins {n : Nat} (h : 0x80 ≤ n) (hvalid : n.isValidChar) :
    ∃ lead, ofByte? (leadByte n) = some lead ∧ lead.Begins n ∧ lead.count = width n := by
  simp only [ofByte?_eq, UInt8.lt_iff_toNat_lt, ← UInt8.toNat_inj, UInt8.reduceToNat]
  by_cases h2 : n < 0x800
  · obtain ⟨hwidth, hbyte⟩ := leadByte_of_lt h2
    rw [if_neg (by omega), if_pos (by omega)]
    refine ⟨_, rfl, ⟨by simp only; omega, second_iff.mpr ?_⟩, hwidth.symm⟩
    simp only [UInt8.reduceToNat]
    omega
  by_cases h3 : n < 0x10000
  · obtain ⟨hwidth, hbyte⟩ := leadByte_of_le_of_lt (by omega) h3
    rw [if_neg (by omega), if_neg (by omega), if_pos (by omega)]
    refine ⟨_, rfl, ⟨by simp only; omega, second_iff.mpr ?_⟩, hwidth.symm⟩
    simp only [apply_ite UInt8.toNat, UInt8.reduceToNat]
    simp only [Nat.isValidChar] at hvalid
    constructor <;> split <;> omega
  · have hlt : n < 0x110000 := by
      simp only [Nat.isValidChar] at hvalid
      omega
    obtain ⟨hwidth, hbyte⟩ := leadByte_of_le (by omega) hlt
    rw [if_neg (by omega), if_neg (by omega), if_neg (by omega), if_pos (by omega)]
    refine ⟨_, rfl, ⟨by simp only; omega, second_iff.mpr ?_⟩, hwidth.symm⟩
    simp only [apply_ite UInt8.toNat, UInt8.reduceToNat]
    constructor <;> split <;> omega

/-- The second byte that a first byte allows is a byte behind the first one. -/
theorem Lead.bounds {b : UInt8} {lead : Lead} (h : ofByte? b = some lead) :
    0x80 ≤ lead.low ∧ lead.high ≤ 0xbf := by
  simp only [ofByte?_eq] at h
  split at h
  · cases h
  split at h
  · obtain rfl := Option.some.inj h
    constructor <;> dsimp only <;> decide
  split at h
  · obtain rfl := Option.some.inj h
    constructor <;> dsimp only <;> split <;> decide
  split at h
  · obtain rfl := Option.some.inj h
    constructor <;> dsimp only <;> split <;> decide
  · cases h

/-! ### Reading a character -/

variable {low high b : UInt8} {bits count n : Nat} {rest after : Bytes} {c : Char}

/-- One more byte is read when there is one and it is allowed. -/
theorem following_succ_iff : following low high bits (count + 1) rest = (some c, after) ↔
    ∃ b rest', rest = b :: rest' ∧ (low ≤ b ∧ b ≤ high) ∧
      following 0x80 0xbf (bits * 64 + (b.toNat - 0x80)) count rest' = (some c, after) := by
  cases rest with
  | nil => simp [following]
  | cons b rest =>
      rw [following]
      split
      · next hb => simp [hb]
      · next hb =>
        refine iff_of_false (by simp) ?_
        rintro ⟨b, rest', heq, hb', -⟩
        obtain ⟨rfl, rfl⟩ := List.cons.inj heq
        exact hb hb'

/-- A byte behind the first one gives six more bits. -/
theorem div_eq_iff (hb : 0x80 ≤ b) (hb' : b ≤ 0xbf) :
    n / 64 ^ count = bits * 64 + (b.toNat - 0x80) ↔
      n / 64 ^ (count + 1) = bits ∧ b = UInt8.ofNat (n / 64 ^ count % 64 + 0x80) := by
  simp only [UInt8.le_iff_toNat_le, UInt8.reduceToNat] at hb hb'
  rw [Nat.pow_succ, ← Nat.div_div_eq_div_mul, ← UInt8.toNat_inj, toNat_tailByte]
  omega

/-- **The bytes behind the first one are read as the lower bits.** -/
theorem following_eq_some_iff (hlow : 0x80 ≤ low) (hhigh : high ≤ 0xbf) :
    following low high bits count rest = (some c, after) ↔
      ∃ n, (n / 64 ^ count = bits ∧ ∀ b ∈ (tail count n).head?, low ≤ b ∧ b ≤ high) ∧
        c = Char.ofNat n ∧ rest = tail count n ++ after := by
  induction count generalizing low high bits rest with
  | zero =>
      simp only [following, Prod.mk.injEq, Option.some.injEq, Nat.pow_zero, Nat.div_one, tail,
        List.head?_nil, List.nil_append]
      simp [eq_comm]
  | succ count ih =>
      simp only [following_succ_iff, ih (UInt8.le_refl 0x80) (UInt8.le_refl 0xbf)]
      constructor
      · rintro ⟨b, rest, rfl, hb, n, ⟨hbits, -⟩, rfl, rfl⟩
        obtain ⟨hbits, heq⟩ :=
          (div_eq_iff (UInt8.le_trans hlow hb.1) (UInt8.le_trans hb.2 hhigh)).mp hbits
        refine ⟨n, ⟨hbits, ?_⟩, rfl, by rw [tail, ← heq, List.cons_append]⟩
        simpa [tail, ← heq] using hb
      · rintro ⟨n, ⟨hbits, hb⟩, rfl, rfl⟩
        have hmem : UInt8.ofNat (n / 64 ^ count % 64 + 0x80) ∈ tail (count + 1) n := by simp [tail]
        obtain ⟨hlow', hhigh'⟩ := mem_tail hmem
        exact ⟨_, _, rfl, hb _ rfl, n, ⟨(div_eq_iff hlow' hhigh').mpr ⟨hbits, rfl⟩,
          fun b hb => mem_tail (List.mem_of_mem_head? hb)⟩, rfl, rfl⟩

/-- The code point that a character is made from. -/
theorem toNat_ofNat_of_isValidChar (h : n.isValidChar) : (Char.ofNat n).toNat = n := by
  rw [Char.ofNat, dif_pos h]
  rfl

/-- A character is read from its bytes, whatever follows. -/
theorem first_utf8EncodeChar (c : Char) (rest : Bytes) : ∃ b bs,
    String.utf8EncodeChar c = b :: bs ∧ first b (bs ++ rest) = (some c, rest) := by
  by_cases hc : c.toNat < 0x80
  · refine ⟨_, _, utf8EncodeChar_ascii hc, ?_⟩
    have hbyte : (UInt8.ofNat c.toNat).toNat = c.toNat :=
      UInt8.toNat_ofNat_of_lt' (show _ < 256 by omega)
    have hlt : UInt8.ofNat c.toNat < 0x80 := by
      rw [UInt8.lt_iff_toNat_lt, hbyte]
      exact hc
    rw [first, if_pos hlt, hbyte, Char.ofNat_toNat, List.nil_append]
  · have hc := Nat.not_lt.mp hc
    refine ⟨_, _, utf8EncodeChar_of_le hc, ?_⟩
    obtain ⟨lead, hlead, hbegins, hcount⟩ := Lead.exists_begins hc c.valid
    obtain ⟨hlow, hhigh⟩ := lead.bounds hlead
    have hnot : ¬ leadByte c.toNat < 0x80 := by
      intro hlt
      rw [Lead.ofByte?_eq, if_pos (UInt8.lt_trans hlt (by decide))] at hlead
      cases hlead
    rw [first, if_neg hnot, hlead]
    refine (following_eq_some_iff hlow hhigh).mpr
      ⟨c.toNat, ⟨hbegins.bits, hbegins.second⟩, (Char.ofNat_toNat c).symm, ?_⟩
    rw [hcount]

/-- **A character is read exactly from its bytes.** -/
theorem first_eq_some_iff :
    first b rest = (some c, after) ↔ b :: rest = String.utf8EncodeChar c ++ after := by
  constructor
  · intro h
    rw [first] at h
    split at h
    · next hb =>
      obtain ⟨hc, rfl⟩ := Prod.mk.inj h
      obtain rfl := Option.some.inj hc
      have hb : b.toNat < 0x80 := hb
      have hnat := toNat_ofNat_of_isValidChar (.inl (by omega) : b.toNat.isValidChar)
      rw [utf8EncodeChar_ascii (by rw [hnat]; exact hb), hnat, UInt8.ofNat_toNat]
      rfl
    split at h
    · cases h
    · next lead hlead =>
      obtain ⟨hlow, hhigh⟩ := lead.bounds hlead
      obtain ⟨n, ⟨hbits, hsecond⟩, rfl, rfl⟩ := (following_eq_some_iff hlow hhigh).mp h
      obtain ⟨hle, hvalid, hwidth, hbyte⟩ := Lead.Begins.eq_leadByte hlead ⟨hbits, hsecond⟩
      have hnat := toNat_ofNat_of_isValidChar hvalid
      rw [utf8EncodeChar_of_le (by rw [hnat]; exact hle), hnat, hwidth, ← hbyte]
      rfl
  · intro h
    obtain ⟨b', bs, hbytes, hfirst⟩ := first_utf8EncodeChar c after
    rw [hbytes] at h
    obtain ⟨rfl, rfl⟩ := List.cons.inj h
    exact hfirst

/-! ### Reading on -/

/-- True for the bytes behind the first one of a character. -/
def isTail (b : UInt8) : Bool :=
  decide (0x80 ≤ b ∧ b ≤ 0xbf)

/-- What is left behind a character or an ill-formed place is the rear of the bytes. -/
theorem following_suffix (low high : UInt8) (bits count : Nat) (rest : Bytes) :
    (following low high bits count rest).2 <:+ rest := by
  induction rest generalizing low high bits count with
  | nil => cases count <;> exact List.suffix_rfl
  | cons b rest ih =>
      cases count with
      | zero => exact List.suffix_rfl
      | succ count =>
          rw [following]
          split
          · exact (ih ..).trans (List.suffix_cons b rest)
          · exact List.suffix_rfl

/-- What is left behind the first piece is the rear of the bytes. -/
theorem first_suffix (b : UInt8) (rest : Bytes) : (first b rest).2 <:+ rest := by
  rw [first]
  split
  · exact List.suffix_rfl
  split
  · exact List.suffix_rfl
  · exact following_suffix ..

/-- Reading does not go past a byte that stands behind no first byte. -/
theorem following_append (hlow : 0x80 ≤ low) (hhigh : high ≤ 0xbf)
    (hafter : ∀ b ∈ after.head?, isTail b = false) :
    following low high bits count (rest ++ after) =
      ((following low high bits count rest).1,
        (following low high bits count rest).2 ++ after) := by
  induction rest generalizing low high bits count with
  | nil =>
      cases count with
      | zero => rfl
      | succ count =>
          cases after with
          | nil => rfl
          | cons b after =>
              have hb : ¬ (low ≤ b ∧ b ≤ high) := fun hb => by
                have := hafter b rfl
                simp [isTail, UInt8.le_trans hlow hb.1, UInt8.le_trans hb.2 hhigh] at this
              rw [List.nil_append]
              exact if_neg hb
  | cons b rest ih =>
      cases count with
      | zero => rfl
      | succ count =>
          rw [List.cons_append, following, following]
          split
          · exact ih (UInt8.le_refl 0x80) (UInt8.le_refl 0xbf)
          · rfl

/-- The first piece does not reach past a byte that stands behind no first byte. -/
theorem first_append (hafter : ∀ b ∈ after.head?, isTail b = false) :
    first b (rest ++ after) = ((first b rest).1, (first b rest).2 ++ after) := by
  rw [first, first]
  split
  · rfl
  split
  · rfl
  · next lead hlead =>
    obtain ⟨hlow, hhigh⟩ := lead.bounds hlead
    exact following_append hlow hhigh hafter

/-- **A byte that stands behind no first byte begins a piece**, whatever stands before it. -/
theorem pieces_append (before : Bytes) (hafter : ∀ b ∈ after.head?, isTail b = false) :
    pieces (before ++ after) = pieces before ++ pieces after := by
  induction hlength : before.length using Nat.strongRecOn generalizing before with
  | ind k ih =>
      cases before with
      | nil => simp
      | cons b before =>
          have hlt : (first b before).2.length < k := by
            rw [← hlength]
            exact Nat.lt_succ_of_le (length_first_le b before)
          rw [List.cons_append, pieces_cons, pieces_cons, first_append hafter, ih _ hlt _ rfl,
            List.cons_append]

/-- The first byte of a character stands behind no first byte. -/
theorem isTail_head?_utf8EncodeChar (c : Char) :
    ∀ b ∈ (String.utf8EncodeChar c ++ rest).head?, isTail b = false := by
  obtain ⟨b, bs, hbytes, hfirst⟩ := first_utf8EncodeChar c rest
  rw [hbytes]
  rintro _ ⟨⟩
  by_contra htail
  simp only [isTail, decide_eq_false_iff_not, not_not] at htail
  rw [first, if_neg (UInt8.not_lt.mpr htail.1), Lead.ofByte?_eq,
    if_pos (UInt8.lt_of_le_of_lt htail.2 (by decide))] at hfirst
  cases hfirst

/-- **A character is a piece of its own**, whatever follows it. -/
theorem pieces_utf8EncodeChar_append (c : Char) (rest : Bytes) :
    pieces (String.utf8EncodeChar c ++ rest) = some c :: pieces rest := by
  obtain ⟨b, bs, hbytes, hfirst⟩ := first_utf8EncodeChar c rest
  rw [hbytes, List.cons_append, pieces_cons, hfirst]

@[simp] theorem encode_nil : encode [] = [] := rfl

theorem encode_cons (c : Char) (t : Text) : encode (c :: t) = String.utf8EncodeChar c ++ encode t :=
  List.flatMap_cons

/-- **The bytes of a text are its characters**, whatever follows them. -/
theorem pieces_encode_append (t : Text) (rest : Bytes) :
    pieces (encode t ++ rest) = t.map some ++ pieces rest := by
  induction t with
  | nil => rfl
  | cons c t ih =>
      rw [encode_cons, List.append_assoc, pieces_utf8EncodeChar_append, ih, List.map_cons,
        List.cons_append]

/-- A byte that stands behind no first byte is read apart from what stands before it. -/
theorem decodeLossy_append (before : Bytes) (hafter : ∀ b ∈ after.head?, isTail b = false) :
    decodeLossy (before ++ after) = decodeLossy before ++ decodeLossy after := by
  rw [decodeLossy, pieces_append before hafter, List.map_append]
  rfl

/-- The bytes of a text are read as that text, whatever follows them. -/
theorem decodeLossy_encode_append (t : Text) (rest : Bytes) :
    decodeLossy (encode t ++ rest) = t ++ decodeLossy rest := by
  rw [decodeLossy, pieces_encode_append, List.map_append, List.map_map]
  exact congrArg (· ++ _) (List.map_id t)

/-- Some bytes always spell some text. -/
theorem decodeLossy_eq_nil_iff {bytes : Bytes} : decodeLossy bytes = [] ↔ bytes = [] := by
  cases bytes with
  | nil => simp [decodeLossy]
  | cons b rest => simp [decodeLossy, pieces_cons]

/-- Bytes can be parted between any two of their pieces. -/
theorem exists_append_of_pieces {bytes : Bytes} {ps qs : List (Option Char)}
    (h : pieces bytes = ps ++ qs) : ∃ front rear, bytes = front ++ rear ∧ pieces rear = qs := by
  induction ps generalizing bytes with
  | nil => exact ⟨[], bytes, rfl, h⟩
  | cons p ps ih =>
      cases bytes with
      | nil => simp at h
      | cons b bytes =>
          rw [pieces_cons, List.cons_append] at h
          obtain ⟨front, rear, hrest, hrear⟩ := ih (List.cons.inj h).2
          obtain ⟨skipped, hskipped⟩ := first_suffix b bytes
          refine ⟨b :: skipped ++ front, rear, ?_, hrear⟩
          rw [List.cons_append, List.cons_append, List.append_assoc, ← hrest, hskipped]

/-- Pieces that are characters are those of a text at the front of the bytes. -/
theorem exists_encode_append_of_pieces {bytes : Bytes} {t : Text} {qs : List (Option Char)}
    (h : pieces bytes = t.map some ++ qs) : ∃ rear, bytes = encode t ++ rear := by
  induction t generalizing bytes with
  | nil => exact ⟨bytes, rfl⟩
  | cons c t ih =>
      cases bytes with
      | nil => simp at h
      | cons b bytes =>
          rw [pieces_cons, List.map_cons, List.cons_append] at h
          obtain ⟨hfirst, hrest⟩ := List.cons.inj h
          obtain ⟨rear, hrear⟩ := ih hrest
          refine ⟨rear, ?_⟩
          rw [encode_cons, List.append_assoc, ← hrear]
          exact first_eq_some_iff.mp (Prod.ext hfirst rfl)

/-- Pieces without ill-formed places and without replacement characters are characters. -/
theorem eq_map_some_of_map_getD {ps : List (Option Char)} {t : Text} (hreplacement : '\ufffd' ∉ t)
    (h : ps.map (fun piece => piece.getD '\ufffd') = t) : ps = t.map some := by
  subst h
  rw [List.map_map]
  refine (List.map_id ps).symm.trans (List.map_congr_left fun piece hpiece => ?_)
  cases piece with
  | none => exact absurd (List.mem_map.mpr ⟨none, hpiece, rfl⟩) hreplacement
  | some c => rfl

/-- **Lossy reading keeps the places of a text.** A text without replacement characters occurs in
the text that some bytes spell exactly if its bytes occur in them. -/
theorem infix_decodeLossy_iff {t : Text} (hreplacement : '\ufffd' ∉ t) (bytes : Bytes) :
    t <:+: decodeLossy bytes ↔ encode t <:+: bytes := by
  constructor
  · rintro ⟨before, after, h⟩
    rw [decodeLossy, eq_comm, List.append_assoc, List.map_eq_append_iff] at h
    obtain ⟨ps, qs, hpieces, -, hqs⟩ := h
    obtain ⟨ts, rs, rfl, hts, -⟩ := List.map_eq_append_iff.mp hqs
    rw [eq_map_some_of_map_getD hreplacement hts] at hpieces
    obtain ⟨front, rear, rfl, hrear⟩ := exists_append_of_pieces hpieces
    obtain ⟨rest, rfl⟩ := exists_encode_append_of_pieces hrear
    exact ⟨front, rest, by rw [List.append_assoc]⟩
  · rintro ⟨front, rest, rfl⟩
    cases t with
    | nil => exact List.nil_infix
    | cons c t =>
        have hhead : ∀ b ∈ (encode (c :: t) ++ rest).head?, isTail b = false := by
          rw [encode_cons, List.append_assoc]
          exact isTail_head?_utf8EncodeChar c
        rw [List.append_assoc, decodeLossy_append front hhead, decodeLossy_encode_append,
          ← List.append_assoc]
        exact ⟨_, _, rfl⟩

end Utf8

end BoolQuery
