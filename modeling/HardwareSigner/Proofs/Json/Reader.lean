import HardwareSigner.Json.Record
import HardwareSigner.Json.Writer
import HardwareSigner.Proofs.Text.Digits

/-! What is written as JSON text is read back. A value is read off the front of a longer text, so
what is said of a reader leaves the text behind the value open; after a number it must not go on
with a digit. -/

namespace HardwareSigner.Json

variable {α β σ : Type}

/-- No digit comes next. -/
def Stops (rest : List Char) : Prop := ∀ c, rest.head? = some c → c.isDigit = false

/-- `w` is a text of `a`: whatever follows it, the reader takes just that off. -/
def Reads (r : TextReader α) (w : List Char) (a : α) : Prop :=
  ∀ rest, Stops rest → r (w ++ rest) = some (a, rest)

/-- A text begins with a character that is neither a blank nor `avoid`. -/
def Opens (avoid : Char) (w : List Char) : Prop :=
  ∃ c cs, w = c :: cs ∧ isBlank c = false ∧ c ≠ avoid

theorem stops_nil : Stops [] := by
  intro c h
  cases h

theorem stops_cons {c : Char} {rest : List Char} (hc : c.isDigit = false) : Stops (c :: rest) := by
  intro d h
  obtain rfl := Option.some.inj h
  exact hc

theorem bind_of_some {r : TextReader α} {f : α → TextReader β} {cs rest : List Char} {a : α}
    (h : r cs = some (a, rest)) : (r >>= f) cs = f a rest := by
  change (r cs).bind (fun p => f p.1 p.2) = _
  rw [h]
  rfl

theorem map_of_some {r : TextReader α} {f : α → β} {cs rest : List Char} {a : α}
    (h : r cs = some (a, rest)) : (f <$> r) cs = some (f a, rest) := by
  change (r cs).bind (fun p => some (f p.1, p.2)) = _
  rw [h]
  rfl

theorem Reads.map {r : TextReader α} {w : List Char} {a : α} (h : Reads r w a) (f : α → β) :
    Reads (f <$> r) w (f a) :=
  fun rest hrest => map_of_some (h rest hrest)

/-! ### Marks -/

section Marks
variable {c : Char} {rest : List Char}

theorem next_cons (hc : isBlank c = false) : next (c :: rest) = some (c, rest) := by
  simp [next, hc]

theorem peek_cons (hc : isBlank c = false) : peek (c :: rest) = some (c, c :: rest) := by
  simp [peek, hc]

theorem mark_cons (hc : isBlank c = false) : mark c (c :: rest) = some ((), rest) := by
  rw [mark, bind_of_some (next_cons hc), if_neg (not_not_intro rfl)]
  rfl

end Marks

/-! ### Numbers -/

theorem isDigit_not_isBlank {c : Char} (h : c.isDigit = true) : isBlank c = false := by
  rw [Bool.eq_false_iff]
  intro hblank
  simp only [isBlank, Bool.or_eq_true, decide_eq_true_eq] at hblank
  rcases hblank with ((rfl | rfl) | rfl) | rfl <;> cases h

theorem reads_natural (n : Nat) : Reads natural (number n) n := by
  intro rest hrest
  have hdigits : ∀ c ∈ Decimal.digits n, c.isDigit = true :=
    fun _ => Decimal.isDigit_of_mem_digits
  obtain ⟨c, cs, hcons⟩ := List.exists_cons_of_ne_nil (Decimal.digits_ne_nil n)
  have hfirst : isBlank c = false :=
    isDigit_not_isBlank (hdigits c (hcons ▸ List.mem_cons_self))
  have hblanks : (number n ++ rest).dropWhile isBlank = Decimal.digits n ++ rest := by
    rw [number, hcons, List.cons_append, List.dropWhile_cons_of_neg (by simp [hfirst])]
  have hnone : rest.takeWhile Char.isDigit = [] := by
    cases rest with
    | nil => rfl
    | cons d rest => rw [List.takeWhile_cons_of_neg (by simp [hrest d rfl])]
  have htake : (Decimal.digits n ++ rest).takeWhile Char.isDigit = Decimal.digits n := by
    rw [List.takeWhile_append_of_pos hdigits, hnone, List.append_nil]
  have hgood : ¬ (Decimal.digits n = [] ∨
      (Decimal.digits n).head? = some '0' ∧ Decimal.digits n ≠ ['0']) := by
    intro h
    rcases h with h | ⟨hhead, hne⟩
    · exact Decimal.digits_ne_nil n h
    · exact hne (Decimal.digits_eq_of_head hhead)
  simp only [natural, hblanks, htake, if_neg hgood, Decimal.value_digits, List.drop_left]

theorem reads_below {bound n : Nat} (hn : n < bound) : Reads (below bound) (number n) n := by
  intro rest hrest
  rw [below, bind_of_some (reads_natural n rest hrest), if_pos hn]
  rfl

theorem reads_uint8 (x : UInt8) : Reads uint8 (number x.toNat) x := by
  have h := (reads_below x.toNat_lt).map UInt8.ofNat
  rwa [UInt8.ofNat_toNat] at h

theorem reads_uint16 (x : UInt16) : Reads uint16 (number x.toNat) x := by
  have h := (reads_below x.toNat_lt).map UInt16.ofNat
  rwa [UInt16.ofNat_toNat] at h

theorem reads_uint32 (x : UInt32) : Reads uint32 (number x.toNat) x := by
  have h := (reads_below x.toNat_lt).map UInt32.ofNat
  rwa [UInt32.ofNat_toNat] at h

theorem reads_uint64 (x : UInt64) : Reads uint64 (number x.toNat) x := by
  have h := (reads_below x.toNat_lt).map UInt64.ofNat
  rwa [UInt64.ofNat_toNat] at h

/-! ### Strings -/

/-- A character that stands for itself between quotes. -/
def isPlain (c : Char) : Bool := c != '"' && c != '\\' && !decide (c < ' ')

theorem stringBody_plain {cs rest : List Char} (h : cs.all isPlain = true) :
    stringBody (cs ++ '"' :: rest) = some (cs, rest) := by
  induction cs with
  | nil => simp [stringBody]
  | cons c cs ih =>
    rw [List.all_cons, Bool.and_eq_true] at h
    obtain ⟨hc, hcs⟩ := h
    simp only [isPlain, Bool.and_eq_true, bne_iff_ne, Bool.not_eq_true', decide_eq_false_iff_not]
      at hc
    obtain ⟨⟨hquote, hslash⟩, hlow⟩ := hc
    have htail := ih hcs
    rw [List.cons_append, stringBody, if_neg hlow, htail]
    · rfl
    · exact hquote
    · intro _ _ _ _ _ hc
      exact absurd hc hslash
    · intro _ _ hc
      exact absurd hc hslash

theorem string_quoted {cs : List Char} (h : cs.all isPlain = true) (rest : List Char) :
    string (quoted cs ++ rest) = some (cs, rest) := by
  rw [string, quoted, List.cons_append, List.append_assoc, bind_of_some (mark_cons rfl)]
  exact stringBody_plain h

theorem reads_hexString (b : Bytes) : Reads hexString (hexText b) b := by
  intro rest _
  have hdigits : Hex.digits.all isPlain = true := by decide
  have hplain : (Hex.encodeChars b).all isPlain = true := List.all_eq_true.2 fun c hc =>
    List.all_eq_true.1 hdigits c (Hex.mem_digits_of_mem_encodeChars hc)
  rw [hexString, hexText, bind_of_some (string_quoted hplain rest), Hex.decode?_encodeChars]
  rfl

theorem reads_hexBlock {n : Nat} (b : Block n) : Reads (hexBlock n) (hexText b.bytes) b := by
  intro rest hrest
  rw [hexBlock, bind_of_some (reads_hexString b.bytes rest hrest), Block.ofBytes?,
    dif_pos b.length_bytes]
  rfl

/-! ### Values behind each other -/

/-- Steps from one state to another, each of which reads the next of the texts. -/
inductive Steps (step : σ → TextReader σ) : σ → List (List Char) → σ → Prop where
  | nil {s : σ} : Steps step s [] s
  | cons {s s' s'' : σ} {t : List Char} {ts : List (List Char)} (hstep : Reads (step s) t s')
      (hmore : Steps step s' ts s'') : Steps step s (t :: ts) s''

section Brackets
variable {start close : Char} {step : σ → TextReader σ} {s s' : σ} {ts : List (List Char)}

theorem commas_cons_cons (t u : List Char) :
    commas (t :: u :: ts) = t ++ ',' :: commas (u :: ts) := rfl

theorem separated_commas {t : List Char} {fuel : Nat} (hblank : isBlank close = false)
    (hdigit : close.isDigit = false) (hcomma : close ≠ ',') (h : Steps step s (t :: ts) s')
    (hfuel : ts.length < fuel) (rest : List Char) :
    separated close step fuel s (commas (t :: ts) ++ close :: rest) = some (s', rest) := by
  induction ts generalizing t s fuel with
  | nil =>
    obtain _ | fuel := fuel
    · cases hfuel
    · rcases h with _ | ⟨hstep, _ | _⟩
      rw [separated, commas, bind_of_some (hstep _ (stops_cons hdigit)),
        bind_of_some (next_cons hblank), if_pos rfl]
      rfl
  | cons u ts ih =>
    obtain _ | fuel := fuel
    · cases hfuel
    · rcases h with _ | ⟨hstep, hmore⟩
      rw [separated, commas_cons_cons, List.append_assoc, List.cons_append,
        bind_of_some (hstep _ (stops_cons (by decide))), bind_of_some (next_cons (by decide)),
        if_neg hcomma.symm, if_pos rfl]
      exact ih hmore (Nat.lt_of_succ_lt_succ hfuel)

theorem length_le_commas (h : ∀ t ∈ ts, t ≠ []) : ts.length ≤ (commas ts).length := by
  induction ts with
  | nil => exact Nat.zero_le _
  | cons t ts ih =>
    have ht := List.length_pos_iff.2 (h t List.mem_cons_self)
    have hts := ih fun u hu => h u (List.mem_cons_of_mem t hu)
    cases ts with
    | nil => exact ht
    | cons u ts =>
      simp only [commas_cons_cons, List.length_append, List.length_cons] at hts ⊢
      omega

theorem Opens.ne_nil {avoid : Char} {w : List Char} (h : Opens avoid w) : w ≠ [] := by
  obtain ⟨c, cs, rfl, -⟩ := h
  exact List.cons_ne_nil c cs

theorem commas_opens {avoid : Char} {t : List Char} (h : Opens avoid t) :
    Opens avoid (commas (t :: ts)) := by
  obtain ⟨c, cs, rfl, hc⟩ := h
  cases ts with
  | nil => exact ⟨c, cs, rfl, hc⟩
  | cons u ts => exact ⟨c, cs ++ ',' :: commas (u :: ts), rfl, hc⟩

theorem bracketed_commas (hstart : isBlank start = false) (hblank : isBlank close = false)
    (hdigit : close.isDigit = false) (hcomma : close ≠ ',') (hopens : ∀ t ∈ ts, Opens close t)
    (h : Steps step s ts s') :
    Reads (bracketed start close step s) (start :: (commas ts ++ [close])) s' := by
  intro rest _
  rw [List.cons_append, List.append_assoc, List.singleton_append, bracketed,
    bind_of_some (mark_cons hstart)]
  cases ts with
  | nil =>
    rcases h with _ | _
    rw [commas, List.nil_append, bind_of_some (peek_cons hblank), if_pos rfl,
      bind_of_some (mark_cons hblank)]
    rfl
  | cons t ts =>
    have hfirst : Opens close (commas (t :: ts)) := commas_opens (hopens t List.mem_cons_self)
    obtain ⟨c, cs, hcs, hc, hne⟩ := hfirst
    have hpeek : peek (commas (t :: ts) ++ close :: rest) =
        some (c, commas (t :: ts) ++ close :: rest) := by
      rw [hcs]
      exact peek_cons hc
    rw [bind_of_some hpeek, if_neg hne]
    have hlength := length_le_commas fun u hu => (hopens u hu).ne_nil
    refine separated_commas hblank hdigit hcomma h ?_ rest
    rw [List.length_append]
    rw [List.length_cons] at hlength
    omega

end Brackets

theorem reads_list {item : TextReader α} {text : α → List Char} (as : List α)
    (hitem : ∀ a, Reads item (text a) a) (hopens : ∀ a, Opens ']' (text a)) :
    Reads (list item) (items (as.map text)) as := by
  have hstep : ∀ (done : List α) (a : α),
      Reads (do pure (done ++ [← item])) (text a) (done ++ [a]) := by
    intro done a
    exact (hitem a).map fun a => done ++ [a]
  have hsteps : ∀ done, Steps (fun as => do pure (as ++ [← item])) done (as.map text) (done ++ as)
      := by
    induction as with
    | nil =>
      intro done
      rw [List.append_nil]
      exact .nil
    | cons a as ih =>
      intro done
      have hmore := ih (done ++ [a])
      rw [List.append_assoc] at hmore
      exact .cons (hstep done a) hmore
  refine bracketed_commas rfl rfl rfl (by decide) ?_ (hsteps [])
  intro t ht
  obtain ⟨a, -, rfl⟩ := List.mem_map.1 ht
  exact hopens a

/-! ### Records -/

def memberText (m : String × List Char) : List Char := quoted m.1.toList ++ ':' :: m.2

section Members
variable {fields : List (Field σ)} {s : σ} {w : List Char}

/-- A member is kept as the field of its name, if that is free. -/
theorem reads_member {name : String} {value : σ → Option α} {set : σ → α → σ} {r : TextReader α}
    {a : α}
    (hfind : fields.find? (fun f => f.name.toList = name.toList) = some (.of name value set r))
    (hplain : name.toList.all isPlain = true) (hfree : value s = none) (hread : Reads r w a) :
    Reads (member fields s) (memberText (name, w)) (set s a) := by
  intro rest hrest
  rw [member, memberText, List.append_assoc, bind_of_some (string_quoted hplain _),
    List.cons_append, bind_of_some (mark_cons rfl), hfind]
  dsimp only [Field.of]
  rw [if_neg (by simp [hfree])]
  exact map_of_some (hread rest hrest)

theorem reads_record {empty : σ} {complete : σ → Option α} {ms : List (String × List Char)} {a : α}
    (h : Steps (member fields) empty (ms.map memberText) s) (hcomplete : complete s = some a) :
    Reads (record fields empty complete) (members ms) a := by
  intro rest hrest
  have hopens : ∀ t ∈ ms.map memberText, Opens '\x7d' t := by
    intro t ht
    obtain ⟨m, -, rfl⟩ := List.mem_map.1 ht
    exact ⟨'"', _, rfl, rfl, by decide⟩
  have hread : Reads (bracketed '\x7b' '\x7d' (member fields) empty) (members ms) s :=
    bracketed_commas rfl rfl rfl (by decide) hopens h
  have hpeek : peek (members ms ++ rest) = some ('\x7b', members ms ++ rest) := peek_cons rfl
  rw [record, bind_of_some hpeek, if_neg (by decide), members]
  refine (bind_of_some (hread rest hrest)).trans ?_
  change (liftM (complete s) : TextReader α) rest = _
  rw [hcomplete]
  rfl

end Members

theorem reads_nullable_some {r : TextReader α} {w : List Char} {a : α} (h : Reads r w a)
    (hopens : Opens 'n' w) : Reads (nullable r) w (some a) := by
  intro rest hrest
  have hmap := h.map some rest hrest
  obtain ⟨c, cs, rfl, hc, hne⟩ := hopens
  rw [nullable, List.cons_append, bind_of_some (peek_cons hc), if_neg hne]
  exact hmap

theorem reads_nullable_none {r : TextReader α} : Reads (nullable r) null none := by
  intro rest _
  rw [nullable, null, List.cons_append, bind_of_some (peek_cons rfl), if_pos rfl]
  rfl

theorem whole_of_reads {r : TextReader α} {w : List Char} {a : α} (h : Reads r w a) :
    whole r w = some a := by
  have hread := h [] stops_nil
  rw [List.append_nil] at hread
  simp [whole, hread]

end HardwareSigner.Json
