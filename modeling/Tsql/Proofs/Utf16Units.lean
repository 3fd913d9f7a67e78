import Tsql.Utf16

/-!
# Text as UTF-16

A text is written as units, and each unit as two bytes. Reading undoes
exactly this: bytes are read as a text just if they are those of the text
(`Utf16.decodeBytes?_eq_some_iff`), so that an odd byte or a surrogate by
itself is read as nothing at all.
-/

namespace Tsql

namespace Utf16

/-! ## Units -/

/-- The units that a character is written as. -/
def unitsOf (c : Char) : List Nat :=
  if c.toNat < 0x10000 then [c.toNat]
  else [0xD800 + (c.toNat - 0x10000) / 0x400, 0xDC00 + (c.toNat - 0x10000) % 0x400]

/-- A unit is two bytes wide. -/
def AllUnits (units : List Nat) : Prop := ∀ n ∈ units, n < 0x10000

theorem toNat_cases (c : Char) :
    c.toNat < 0xD800 ∨ 0xDFFF < c.toNat ∧ c.toNat < 0x110000 := c.valid

theorem toNat_ofNat {n : Nat} (h : n.isValidChar) : (Char.ofNat n).toNat = n := by
  rw [Char.ofNat, dif_pos h]
  rfl

theorem allUnits_unitsOf (c : Char) : AllUnits (unitsOf c) := by
  have hvalid := toNat_cases c
  intro n hn
  rw [unitsOf] at hn
  split at hn
  · obtain rfl := List.mem_singleton.mp hn
    assumption
  · rw [List.mem_cons, List.mem_singleton] at hn
    omega

/-- A surrogate and its partner are the units of one character. -/
theorem unitsOf_pairedChar {high low : Nat} (hhigh : isHighSurrogate high = true)
    (hlow : isLowSurrogate low = true) : unitsOf (pairedChar high low) = [high, low] := by
  simp only [isHighSurrogate, isLowSurrogate, Bool.and_eq_true, decide_eq_true_eq] at hhigh hlow
  have hvalid : (0x10000 + (high - 0xD800) * 0x400 + (low - 0xDC00)).isValidChar := by
    right
    omega
  rw [unitsOf, pairedChar, toNat_ofNat hvalid, if_neg (by omega), List.cons.injEq,
    List.cons.injEq]
  exact ⟨by omega, by omega, rfl⟩

theorem unitsOf_ofNat {n : Nat} (h : n.isValidChar) (hn : n < 0x10000) :
    unitsOf (Char.ofNat n) = [n] := by
  rw [unitsOf, toNat_ofNat h, if_pos hn]

/-- The units of a character are read as this character. -/
theorem decode?_unitsOf_append (c : Char) (more : List Nat) :
    decode? (unitsOf c ++ more) = (decode? more).map (c :: ·) := by
  have hvalid := toNat_cases c
  rw [unitsOf]
  split
  · have hchar : c.toNat.isValidChar := c.valid
    have hhigh : isHighSurrogate c.toNat = false := by
      simp only [isHighSurrogate, Bool.and_eq_false_iff, decide_eq_false_iff_not]
      omega
    cases more with
    | nil => simp [decode?, hchar]
    | cons m more => simp [decode?, hchar, hhigh]
  · generalize hhigh : 0xD800 + (c.toNat - 0x10000) / 0x400 = high
    generalize hlow : 0xDC00 + (c.toNat - 0x10000) % 0x400 = low
    have hpair : isHighSurrogate high = true ∧ isLowSurrogate low = true := by
      simp only [isHighSurrogate, isLowSurrogate, Bool.and_eq_true, decide_eq_true_eq]
      omega
    have hnumber : 0x10000 + (high - 0xD800) * 0x400 + (low - 0xDC00) = c.toNat := by omega
    have hchar : pairedChar high low = c := by rw [pairedChar, hnumber, Char.ofNat_toNat]
    rw [List.cons_append, List.cons_append, List.nil_append, decode?, hpair.1, hpair.2, hchar]
    rfl

theorem decode?_flatMap_unitsOf (t : Text) : decode? (t.flatMap unitsOf) = some t := by
  induction t with
  | nil => rfl
  | cons c t ih => rw [List.flatMap_cons, decode?_unitsOf_append, ih, Option.map_some]

/-- Units are read as a text just if they are its units. -/
theorem decode?_eq_some_iff {units : List Nat} (hunits : AllUnits units) {t : Text} :
    decode? units = some t ↔ units = t.flatMap unitsOf := by
  constructor
  · intro h
    fun_induction decode? units generalizing t with
    | case1 =>
        obtain rfl := Option.some.inj h
        rfl
    | case2 n hn =>
        obtain rfl := Option.some.inj h
        rw [List.flatMap_cons, List.flatMap_nil, unitsOf_ofNat hn (hunits n List.mem_cons_self),
          List.append_nil]
    | case3 => cases h
    | case4 n m more hpair ih =>
        obtain ⟨u, hu, rfl⟩ := Option.map_eq_some_iff.mp h
        have hmore : AllUnits more := fun k hk =>
          hunits k (List.mem_cons_of_mem _ (List.mem_cons_of_mem _ hk))
        obtain ⟨hhigh, hlow⟩ := Bool.and_eq_true_iff.mp hpair
        rw [List.flatMap_cons, unitsOf_pairedChar hhigh hlow, ← ih hmore hu]
        rfl
    | case5 n m more _ hn ih =>
        obtain ⟨u, hu, rfl⟩ := Option.map_eq_some_iff.mp h
        have hmore : AllUnits (m :: more) := fun k hk => hunits k (List.mem_cons_of_mem _ hk)
        rw [List.flatMap_cons, unitsOf_ofNat hn (hunits n List.mem_cons_self), ← ih hmore hu]
        rfl
    | case6 => cases h
  · rintro rfl
    exact decode?_flatMap_unitsOf t

/-! ## Bytes -/

/-- The two bytes of a unit. -/
def ByteOrder.bytes (order : ByteOrder) (unit : Nat) : List UInt8 :=
  match order with
  | .little => [UInt8.ofNat (unit % 256), UInt8.ofNat (unit / 256)]
  | .big => [UInt8.ofNat (unit / 256), UInt8.ofNat (unit % 256)]

/-- The bytes of a text. -/
def bytesOf (order : ByteOrder) (t : Text) : List UInt8 := (t.flatMap unitsOf).flatMap order.bytes

theorem units?_bytes_append (order : ByteOrder) {unit : Nat} (h : unit < 0x10000)
    (more : List UInt8) :
    units? order (order.bytes unit ++ more) = (units? order more).map (unit :: ·) := by
  have hlow : (UInt8.ofNat (unit % 256)).toNat = unit % 256 :=
    UInt8.toNat_ofNat_of_lt' (Nat.mod_lt _ (by decide))
  have hhigh : (UInt8.ofNat (unit / 256)).toNat = unit / 256 :=
    UInt8.toNat_ofNat_of_lt' (Nat.div_lt_of_lt_mul h)
  cases order with
  | little =>
      rw [ByteOrder.bytes, List.cons_append, List.cons_append, List.nil_append, units?]
      simp only [hlow, hhigh, Nat.mod_add_div]
  | big =>
      rw [ByteOrder.bytes, List.cons_append, List.cons_append, List.nil_append, units?]
      simp only [hlow, hhigh, Nat.div_add_mod]

theorem bytes_little (a b : UInt8) :
    ByteOrder.bytes .little (a.toNat + 256 * b.toNat) = [a, b] := by
  have ha : a.toNat < 256 := a.toNat_lt
  rw [ByteOrder.bytes, Nat.add_mul_mod_self_left, Nat.mod_eq_of_lt ha,
    Nat.add_mul_div_left _ _ (by decide), Nat.div_eq_of_lt ha, Nat.zero_add, UInt8.ofNat_toNat,
    UInt8.ofNat_toNat]

theorem bytes_big (a b : UInt8) : ByteOrder.bytes .big (256 * a.toNat + b.toNat) = [a, b] := by
  have hb : b.toNat < 256 := b.toNat_lt
  rw [ByteOrder.bytes, Nat.mul_add_mod, Nat.mod_eq_of_lt hb, Nat.mul_add_div (by decide),
    Nat.div_eq_of_lt hb, Nat.add_zero, UInt8.ofNat_toNat, UInt8.ofNat_toNat]

/-- Bytes are read as units just if they are the bytes of these. -/
theorem units?_eq_some_iff {order : ByteOrder} {bytes : List UInt8} {units : List Nat} :
    units? order bytes = some units ↔ AllUnits units ∧ bytes = units.flatMap order.bytes := by
  constructor
  · intro h
    induction bytes using units?.induct order generalizing units with
    | case1 =>
        obtain rfl := Option.some.inj h
        exact ⟨fun n hn => absurd hn List.not_mem_nil, rfl⟩
    | case2 => cases h
    | case3 a b more ih =>
        simp only [units?, Option.map_eq_some_iff] at h
        obtain ⟨rest, hrest, rfl⟩ := h
        obtain ⟨hall, rfl⟩ := ih hrest
        have ha := a.toNat_lt
        have hb := b.toNat_lt
        cases order with
        | little =>
            refine ⟨List.forall_mem_cons.mpr ⟨by dsimp only; omega, hall⟩, ?_⟩
            rw [List.flatMap_cons, bytes_little]
            rfl
        | big =>
            refine ⟨List.forall_mem_cons.mpr ⟨by dsimp only; omega, hall⟩, ?_⟩
            rw [List.flatMap_cons, bytes_big]
            rfl
  · rintro ⟨hall, rfl⟩
    induction units with
    | nil => rfl
    | cons unit units ih =>
        obtain ⟨hunit, hall⟩ := List.forall_mem_cons.mp hall
        rw [List.flatMap_cons, units?_bytes_append order hunit, ih hall, Option.map_some]

/-- Bytes are read as a text just if they are the bytes of this text. -/
theorem decodeBytes?_eq_some_iff {order : ByteOrder} {bytes : List UInt8} {t : Text} :
    decodeBytes? order bytes = some t ↔ bytes = bytesOf order t := by
  rw [decodeBytes?, Option.bind_eq_some_iff]
  constructor
  · rintro ⟨units, hunits, ht⟩
    obtain ⟨hall, rfl⟩ := units?_eq_some_iff.mp hunits
    rw [(decode?_eq_some_iff hall).mp ht, bytesOf]
  · rintro rfl
    have hall : AllUnits (t.flatMap unitsOf) := by
      intro n hn
      obtain ⟨c, -, hc⟩ := List.mem_flatMap.mp hn
      exact allUnits_unitsOf c n hc
    exact ⟨t.flatMap unitsOf, units?_eq_some_iff.mpr ⟨hall, rfl⟩, decode?_flatMap_unitsOf t⟩

end Utf16

end Tsql
