import Mathlib.Algebra.Group.Nat.Defs
import Mathlib.Data.List.Forall2
import HardwareSigner.Path
import HardwareSigner.Proofs.Text.Digits

/-! A derivation path in text. Every path is read back from its own text, and a text is read as a
path exactly if it has the form: the root, then ten steps at most, each behind a slash. -/

namespace HardwareSigner.DerivationPath

/-! ### The top bit of a step -/

theorem isHardened_eq (e : UInt32) : isHardened e = decide (2 ^ 31 ≤ e.toNat) := by
  have hbit : hardened.toBitVec = BitVec.twoPow 32 31 := by decide
  have htop : e.toBitVec.getLsbD 31 = decide (2 ^ 31 ≤ e.toNat) := by
    have hmsb := BitVec.msb_eq_decide e.toBitVec
    simpa [BitVec.msb_eq_getLsbD_last] using hmsb
  have hzero : e &&& hardened = 0 ↔ e.toBitVec &&& BitVec.twoPow 32 31 = 0#32 := by
    rw [← hbit, ← UInt32.toBitVec_and, ← UInt32.toBitVec_inj]
    rfl
  have hiff : e &&& hardened = 0 ↔ ¬ 2 ^ 31 ≤ e.toNat := by
    rw [hzero, BitVec.and_twoPow, htop]
    by_cases h : 2 ^ 31 ≤ e.toNat
    · simp only [h, decide_true, if_true]
      decide
    · rw [decide_eq_false h]
      exact iff_of_true rfl h
  rw [isHardened, Bool.eq_iff_iff, bne_iff_ne, decide_eq_true_iff, ne_eq, hiff,
    Decidable.not_not]

theorem isHardened_of_le {e : UInt32} (h : 2 ^ 31 ≤ e.toNat) : isHardened e = true := by
  rw [isHardened_eq]
  exact decide_eq_true h

theorem isHardened_of_lt {e : UInt32} (h : e.toNat < 2 ^ 31) : isHardened e = false := by
  rw [isHardened_eq]
  exact decide_eq_false (Nat.not_le.2 h)

theorem toNat_or_hardened {e : UInt32} (h : e.toNat < 2 ^ 31) :
    (e ||| hardened).toNat = 2 ^ 31 + e.toNat := by
  rw [UInt32.toNat_or, Nat.or_comm]
  exact (Nat.two_pow_add_eq_or_of_lt h 1).symm

theorem toNat_xor_hardened {e : UInt32} (h : 2 ^ 31 ≤ e.toNat) :
    2 ^ 31 + (e ^^^ hardened).toNat = e.toNat := by
  have hlt := e.toNat_lt
  have hlow : (e.toNat ^^^ 2 ^ 31) % 2 ^ 31 = e.toNat % 2 ^ 31 := by
    rw [Nat.xor_mod_two_pow, Nat.mod_self, Nat.xor_zero]
  have hhigh : (e.toNat ^^^ 2 ^ 31) / 2 ^ 31 = 0 := by
    rw [Nat.xor_div_two_pow, show e.toNat / 2 ^ 31 = 1 by omega]
    rfl
  have hxor : (e ^^^ hardened).toNat = e.toNat ^^^ 2 ^ 31 := UInt32.toNat_xor e hardened
  omega

/-! ### Steps -/

/-- A number in text: a plus sign or none, then one digit or more. -/
def Numeral (cs : List Char) (v : Nat) : Prop :=
  ∃ ds, (cs = ds ∨ cs = '+' :: ds) ∧ ds ≠ [] ∧ (∀ c ∈ ds, c.isDigit = true) ∧ Decimal.value ds = v

/-- How a step may be written: a number below `2 ^ 32`, or one that leaves the top bit free and a
mark behind it, which sets the bit. -/
inductive Written : List Char → UInt32 → Prop where
  | plain {cs : List Char} {v : Nat} (hnum : Numeral cs v) (hlt : v < 2 ^ 32) :
      Written cs (UInt32.ofNat v)
  | marked {cs : List Char} {v : Nat} {mark : Char} (hnum : Numeral cs v) (hlt : v < 2 ^ 31)
      (hmark : mark = '\x27' ∨ mark = 'h') : Written (cs ++ [mark]) (UInt32.ofNat v ||| hardened)

theorem not_isDigit_of {c : Char} (h : c = '+' ∨ c = '/' ∨ c = '\x27' ∨ c = 'h') :
    c.isDigit = false := by
  rcases h with rfl | rfl | rfl | rfl <;> rfl

theorem Numeral.of_digits {n : Nat} : Numeral (Decimal.digits n) n :=
  ⟨_, .inl rfl, Decimal.digits_ne_nil n, fun _ => Decimal.isDigit_of_mem_digits,
    Decimal.value_digits n⟩

theorem Numeral.isDigit_last {cs : List Char} {v : Nat} (h : Numeral cs v) :
    ∃ c, cs.getLast? = some c ∧ c.isDigit = true := by
  obtain ⟨ds, hsign, hne, hds, -⟩ := h
  refine ⟨ds.getLast hne, ?_, hds _ (List.getLast_mem hne)⟩
  rcases hsign with rfl | rfl
  · exact List.getLast?_eq_some_getLast hne
  · rw [List.getLast?_cons, List.getLast?_eq_some_getLast hne]
    rfl

theorem Numeral.slash_not_mem {cs : List Char} {v : Nat} (h : Numeral cs v) : '/' ∉ cs := by
  obtain ⟨ds, hsign, -, hds, -⟩ := h
  have hnot : '/' ∉ ds := by
    intro hmem
    exact absurd (hds _ hmem) (by decide)
  rcases hsign with rfl | rfl <;> simp [hnot]

theorem number?_eq_some {cs : List Char} {n : UInt32} :
    number? cs = some n ↔ ∃ v, Numeral cs v ∧ v < 2 ^ 32 ∧ UInt32.ofNat v = n := by
  -- the digits are what the reader leaves of a number once the sign is off
  have hdigits : ∀ v, Numeral cs v ↔
      (if cs.head? = some '+' then cs.tail else cs) ≠ [] ∧
      (∀ c ∈ (if cs.head? = some '+' then cs.tail else cs), c.isDigit = true) ∧
      Decimal.value (if cs.head? = some '+' then cs.tail else cs) = v := by
    intro v
    constructor
    · intro h
      obtain ⟨ds, hsign, hne, hds, hv⟩ := h
      rcases hsign with rfl | rfl
      · have hplus : cs.head? ≠ some '+' := by
          intro h
          exact absurd (hds _ (List.mem_of_mem_head? h)) (by decide)
        rw [if_neg hplus]
        exact ⟨hne, hds, hv⟩
      · exact ⟨hne, hds, hv⟩
    · intro h
      split at h
      · rename_i hplus
        obtain ⟨cs, rfl⟩ := List.head?_eq_some_iff.1 hplus
        exact ⟨cs, .inr rfl, h⟩
      · exact ⟨cs, .inl rfl, h⟩
  simp only [hdigits, number?]
  generalize (if cs.head? = some '+' then cs.tail else cs) = ds
  split
  · rename_i hbad
    refine iff_of_false nofun ?_
    intro h
    obtain ⟨v, ⟨hne, hall, rfl⟩, hlt, -⟩ := h
    have hsize : ¬ UInt32.size ≤ Decimal.value ds := Nat.not_le.2 hlt
    have hdigit : ds.all Char.isDigit = true := List.all_eq_true.2 hall
    simp [hne, hdigit, hsize] at hbad
  · rename_i hgood
    simp only [Bool.or_eq_true, decide_eq_true_eq, not_or, List.isEmpty_iff, Bool.not_eq_true',
      Bool.not_eq_false, List.all_eq_true, Nat.not_le] at hgood
    obtain ⟨⟨hne, hall⟩, hlt⟩ := hgood
    rw [Option.some.injEq]
    constructor
    · intro h
      exact ⟨_, ⟨hne, hall, rfl⟩, hlt, h⟩
    · intro h
      obtain ⟨v, ⟨-, -, rfl⟩, -, h⟩ := h
      exact h

theorem stripMark_of_mark {cs : List Char} {mark : Char} (hmark : mark = '\x27' ∨ mark = 'h') :
    stripMark (cs ++ [mark]) = (cs, true) := by
  rcases hmark with rfl | rfl <;> simp [stripMark]

theorem stripMark_cases (cs : List Char) :
    stripMark cs = (cs, false) ∨ ∃ ds mark, (mark = '\x27' ∨ mark = 'h') ∧ cs = ds ++ [mark] := by
  unfold stripMark
  split
  · rename_i hlast
    obtain ⟨ds, rfl⟩ := List.getLast?_eq_some_iff.1 hlast
    exact .inr ⟨ds, _, .inl rfl, rfl⟩
  · rename_i hlast
    obtain ⟨ds, rfl⟩ := List.getLast?_eq_some_iff.1 hlast
    exact .inr ⟨ds, _, .inr rfl, rfl⟩
  · exact .inl rfl

theorem Numeral.stripMark {cs : List Char} {v : Nat} (h : Numeral cs v) :
    stripMark cs = (cs, false) := by
  obtain ⟨c, hlast, hc⟩ := h.isDigit_last
  rcases stripMark_cases cs with hs | ⟨ds, mark, hmark, rfl⟩
  · exact hs
  · rw [List.getLast?_concat, Option.some.injEq] at hlast
    subst hlast
    rw [not_isDigit_of (.inr (.inr hmark))] at hc
    cases hc

/-- A step is read from what may be written for it, and from nothing else. -/
theorem element?_eq_some {cs : List Char} {e : UInt32} : element? cs = some e ↔ Written cs e := by
  constructor
  · intro h
    rcases stripMark_cases cs with hs | ⟨ds, mark, hmark, rfl⟩
    · simp only [element?, hs] at h
      split at h
      · cases h
      · rename_i n hn
        obtain ⟨v, hnum, hlt, rfl⟩ := number?_eq_some.1 hn
        obtain rfl := Option.some.inj h
        exact .plain hnum hlt
    · simp only [element?, stripMark_of_mark hmark] at h
      split at h
      · cases h
      · rename_i n hn
        obtain ⟨v, hnum, hlt, rfl⟩ := number?_eq_some.1 hn
        have hval : (UInt32.ofNat v).toNat = v := UInt32.toNat_ofNat_of_lt' hlt
        by_cases htop : 2 ^ 31 ≤ v
        · rw [isHardened_of_le (hval.symm ▸ htop)] at h
          cases h
        · have hfree := Nat.lt_of_not_le htop
          rw [isHardened_of_lt (hval.symm ▸ hfree)] at h
          obtain rfl := Option.some.inj h
          exact .marked hnum hfree hmark
  · intro h
    cases h with
    | plain hnum hlt =>
      simp [element?, hnum.stripMark, number?_eq_some.2 ⟨_, hnum, hlt, rfl⟩]
    | marked hnum hlt hmark =>
      have hlt' := Nat.lt_trans hlt (show 2 ^ 31 < 2 ^ 32 by decide)
      have hfree := isHardened_of_lt ((UInt32.toNat_ofNat_of_lt' hlt').symm ▸ hlt)
      simp [element?, stripMark_of_mark hmark, number?_eq_some.2 ⟨_, hnum, hlt', rfl⟩, hfree]

theorem written_elementText (e : UInt32) : Written (elementText e) e := by
  rw [elementText]
  by_cases htop : 2 ^ 31 ≤ e.toNat
  · have hsum := toNat_xor_hardened htop
    have hlt := e.toNat_lt
    have hmarked : Written (Decimal.digits (e ^^^ hardened).toNat ++ ['\x27'])
        (UInt32.ofNat (e ^^^ hardened).toNat ||| hardened) :=
      .marked .of_digits (by omega) (.inl rfl)
    have he : UInt32.ofNat (e ^^^ hardened).toNat ||| hardened = e := by
      apply UInt32.toNat_inj.1
      rw [UInt32.ofNat_toNat, toNat_or_hardened (by omega), hsum]
    rw [he] at hmarked
    rwa [isHardened_of_le htop, if_pos rfl]
  · have hplain : Written (Decimal.digits e.toNat) (UInt32.ofNat e.toNat) :=
      .plain .of_digits e.toNat_lt
    rw [isHardened_of_lt (Nat.lt_of_not_le htop), if_neg Bool.false_ne_true]
    rwa [UInt32.ofNat_toNat] at hplain

theorem Written.slash_not_mem {cs : List Char} {e : UInt32} (h : Written cs e) : '/' ∉ cs := by
  cases h with
  | plain hnum _ => exact hnum.slash_not_mem
  | marked hnum _ hmark =>
    have hne := hnum.slash_not_mem
    rcases hmark with rfl | rfl <;> simp [hne]

/-! ### Steps behind slashes -/

/-- Parts, each behind a slash. -/
def slashed (parts : List (List Char)) : List Char := parts.flatMap fun t => '/' :: t

theorem splitSlash_slash (cs : List Char) : splitSlash ('/' :: cs) = [] :: splitSlash cs := by
  simp only [splitSlash]

theorem splitSlash_cons {c : Char} {cs t : List Char} {parts : List (List Char)} (hc : c ≠ '/')
    (h : splitSlash cs = t :: parts) : splitSlash (c :: cs) = (c :: t) :: parts := by
  rw [splitSlash.eq_def]
  simp only [h]

theorem splitSlash_append {t cs u : List Char} {parts : List (List Char)} (ht : '/' ∉ t)
    (h : splitSlash cs = u :: parts) : splitSlash (t ++ cs) = (t ++ u) :: parts := by
  induction t with
  | nil => exact h
  | cons c t ih =>
    rw [List.mem_cons, not_or] at ht
    exact splitSlash_cons (Ne.symm ht.1) (ih ht.2)

/-- The parts are what stands between the slashes. -/
theorem splitSlash_slashed {t : List Char} {parts : List (List Char)} (ht : '/' ∉ t)
    (hparts : ∀ t ∈ parts, '/' ∉ t) : splitSlash (t ++ slashed parts) = t :: parts := by
  have hrest : splitSlash (slashed parts) = [] :: parts := by
    induction parts with
    | nil => rfl
    | cons u parts ih =>
      have hmore := ih fun t h => hparts t (List.mem_cons_of_mem u h)
      have hu := splitSlash_append (hparts u List.mem_cons_self) hmore
      rw [List.append_nil] at hu
      exact (splitSlash_slash _).trans (congrArg _ hu)
  rw [splitSlash_append ht hrest, List.append_nil]

/-- Nothing is lost between the slashes. -/
theorem exists_splitSlash (cs : List Char) :
    ∃ t parts, splitSlash cs = t :: parts ∧ cs = t ++ slashed parts := by
  induction cs with
  | nil => exact ⟨[], [], rfl, rfl⟩
  | cons c cs ih =>
    obtain ⟨t, parts, hsplit, rfl⟩ := ih
    by_cases hc : c = '/'
    · subst hc
      exact ⟨[], t :: parts, by rw [splitSlash_slash, hsplit], rfl⟩
    · exact ⟨c :: t, parts, splitSlash_cons hc hsplit, rfl⟩

theorem parseElements_eq_ok {read : List UInt32} {parts : List (List Char)} {p : DerivationPath} :
    parseElements read parts = .ok p ↔
      ∃ es, List.Forall₂ Written parts es ∧ p.elements = read ++ es := by
  induction parts generalizing read with
  | nil =>
    simp only [parseElements, ofElements, List.forall₂_nil_left_iff]
    constructor
    · intro h
      split at h
      · cases h
        exact ⟨[], rfl, (List.append_nil read).symm⟩
      · cases h
    · intro h
      obtain ⟨es, rfl, hp⟩ := h
      rw [List.append_nil] at hp
      rw [dif_pos (hp ▸ p.depth_le)]
      simp only [← hp]
  | cons t parts ih =>
    simp only [List.forall₂_cons_left_iff]
    constructor
    · intro h
      rw [parseElements] at h
      split at h
      · cases h
      · rename_i e he
        split at h
        · obtain ⟨es, hes, hp⟩ := ih.1 h
          refine ⟨e :: es, ⟨e, es, element?_eq_some.1 he, hes, rfl⟩, ?_⟩
          rw [hp, List.append_assoc, List.singleton_append]
        · cases h
    · intro h
      obtain ⟨_, ⟨e, es, he, hes, rfl⟩, hp⟩ := h
      have hdepth := p.depth_le
      rw [hp, List.length_append, List.length_cons] at hdepth
      have hroom : read.length < maxDepth := Nat.lt_of_lt_of_le (by omega) hdepth
      simp only [parseElements, element?_eq_some.2 he, if_pos hroom]
      exact ih.2 ⟨es, hes, by rw [hp, List.append_assoc, List.singleton_append]⟩

theorem text_eq (p : DerivationPath) : p.text = 'm' :: slashed (p.elements.map elementText) := by
  rw [text, slashed, List.flatMap_map]

theorem parse_eq_ok {s : List Char} {p : DerivationPath} :
    parse s = .ok p ↔
      ∃ parts, s = 'm' :: slashed parts ∧ List.Forall₂ Written parts p.elements := by
  constructor
  · intro h
    obtain ⟨t, parts, hsplit, rfl⟩ := exists_splitSlash s
    simp only [parse, hsplit] at h
    split at h
    · rename_i heq
      cases heq
      obtain ⟨es, hes, hp⟩ := parseElements_eq_ok.1 h
      exact ⟨parts, rfl, hp ▸ hes⟩
    · cases h
  · intro h
    obtain ⟨parts, rfl, hparts⟩ := h
    have hslash : ∀ t ∈ parts, '/' ∉ t :=
      ((List.forall₂_and_left _ _).1 (hparts.imp fun _ _ h => ⟨h.slash_not_mem, h⟩)).1
    have hsplit : splitSlash ('m' :: slashed parts) = ['m'] :: parts :=
      splitSlash_slashed (t := ['m']) (by decide) hslash
    simp only [parse, hsplit]
    exact parseElements_eq_ok.2 ⟨p.elements, hparts, rfl⟩

/-- A path is read back from its text, and a text is read as a path exactly if it is the root and
at most ten steps behind slashes, each written for the element at its place. -/
theorem parse_exact :
    (∀ p : DerivationPath, parse p.text = .ok p) ∧
    ∀ (s : List Char) (p : DerivationPath), parse s = .ok p ↔
      ∃ parts : List (List Char), s = 'm' :: slashed parts ∧ parts.length ≤ 10 ∧
        List.Forall₂ Written parts p.elements := by
  constructor
  · intro p
    refine parse_eq_ok.2 ⟨_, text_eq p, ?_⟩
    rw [List.forall₂_map_left_iff]
    exact List.forall₂_same.2 fun e _ => written_elementText e
  · intro s p
    rw [parse_eq_ok]
    refine exists_congr fun parts => and_congr_right fun _ => ?_
    exact ⟨fun h => ⟨h.length_eq ▸ p.depth_le, h⟩, fun h => h.2⟩

end HardwareSigner.DerivationPath
