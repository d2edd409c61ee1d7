import DeviceTree.Text.Utf8

/-!
# UTF-8 read back

The machine of `scan` against the form that `encode` writes. From the start, the form of a character is read as
that character (`scanFrom_start_append`). The other way, a state inside a sequence remembers the bytes that led
to it (`Leads`), so a scan without gaps can be written out again (`written_scanFrom`).

* `scan_encode`, `lossy_encode`: the form of a text is read as that text;
* `decode?_eq_some_iff`: a run of bytes is read as a text just when it is the text's form;
* `zero_mem_encode_iff`: a NUL byte in the form is a NUL character of the text;
* `nul_notMem_lossy`: bytes without a NUL are shown as a text without one.
-/

namespace DeviceTree.Utf8

theorem toNat_byteOfNat (n : Nat) : (UInt8.ofNat n).toNat = n % 256 := UInt8.toNat_ofNat'

theorem byteOfNat_eq {n : Nat} {b : UInt8} (h : n % 256 = b.toNat) : UInt8.ofNat n = b :=
  UInt8.toNat_inj.1 ((toNat_byteOfNat n).trans h)

theorem toNat_charOfNat {n : Nat} (h : n.isValidChar) : (Char.ofNat n).val.toNat = n := by
  rw [Char.ofNat, dif_pos h]
  rfl

/-! ## First bytes -/

theorem lead_two {b : UInt8} (h : 0xC2 ≤ b.toNat) (h' : b.toNat < 0xE0) :
    lead b = ([], .inside (b.toNat % 32) 0x80 0xBF 0) := by
  simp only [lead, show ¬ b.toNat < 0x80 by omega, show ¬ b.toNat < 0xC2 by omega, h', if_true, if_false]

theorem lead_three {b : UInt8} (h : 0xE0 ≤ b.toNat) (h' : b.toNat < 0xF0) :
    lead b = ([], .inside (b.toNat % 16) (if b.toNat = 0xE0 then 0xA0 else 0x80)
      (if b.toNat = 0xED then 0x9F else 0xBF) 1) := by
  simp only [lead, show ¬ b.toNat < 0x80 by omega, show ¬ b.toNat < 0xC2 by omega,
    show ¬ b.toNat < 0xE0 by omega, h', if_true, if_false]
  by_cases hE0 : b.toNat = 0xE0
  · simp [hE0]
  by_cases hED : b.toNat = 0xED
  · simp [hED]
  · simp [hE0, hED]

theorem lead_four {b : UInt8} (h : 0xF0 ≤ b.toNat) (h' : b.toNat ≤ 0xF4) :
    lead b = ([], .inside (b.toNat % 8) (if b.toNat = 0xF0 then 0x90 else 0x80)
      (if b.toNat = 0xF4 then 0x8F else 0xBF) 2) := by
  simp only [lead, show ¬ b.toNat < 0x80 by omega, show ¬ b.toNat < 0xC2 by omega,
    show ¬ b.toNat < 0xE0 by omega, show ¬ b.toNat = 0xE0 by omega, show ¬ b.toNat = 0xED by omega,
    show ¬ b.toNat < 0xF0 by omega, if_false]
  by_cases hF0 : b.toNat = 0xF0
  · simp [hF0]
  by_cases hF4 : b.toNat = 0xF4
  · simp [hF4]
  · simp [hF0, hF4, show b.toNat < 0xF4 by omega]

/-! ## The form of a character -/

theorem scanFrom_last {least greatest : Nat} {b : UInt8} (h : least ≤ b.toNat) (h' : b.toNat ≤ greatest)
    (bits : Nat) (bs : Bytes) :
    scanFrom (.inside bits least greatest 0) (b :: bs) =
      some (Char.ofNat (bits * 64 + b.toNat % 64)) :: scanFrom .start bs := by
  rw [scanFrom, if_pos ⟨h, h'⟩]

theorem scanFrom_more {least greatest : Nat} {b : UInt8} (h : least ≤ b.toNat) (h' : b.toNat ≤ greatest)
    (bits more : Nat) (bs : Bytes) :
    scanFrom (.inside bits least greatest (more + 1)) (b :: bs) =
      scanFrom (.inside (bits * 64 + b.toNat % 64) 0x80 0xBF more) bs := by
  rw [scanFrom, if_pos ⟨h, h'⟩]

theorem scanFrom_start_append (c : Char) (bs : Bytes) :
    scanFrom .start (String.utf8EncodeChar c ++ bs) = some c :: scanFrom .start bs := by
  have hv : c.toNat < 0xD800 ∨ (0xDFFF < c.toNat ∧ c.toNat < 0x110000) := c.valid
  have hchar {n : Nat} (hn : n = c.toNat) : Char.ofNat n = c := hn ▸ Char.ofNat_toNat c
  simp only [String.utf8EncodeChar, show c.val.toNat = c.toNat from rfl]
  split
  · simp only [List.cons_append, List.nil_append, scanFrom, lead, toNat_byteOfNat]
    rw [if_pos (by omega), hchar (by omega)]
    rfl
  split
  · simp only [List.cons_append, List.nil_append]
    rw [scanFrom, lead_two (by rw [toNat_byteOfNat]; omega) (by rw [toNat_byteOfNat]; omega),
      List.nil_append, scanFrom_last (by rw [toNat_byteOfNat]; omega) (by rw [toNat_byteOfNat]; omega),
      toNat_byteOfNat, toNat_byteOfNat, hchar (by omega)]
  split
  · simp only [List.cons_append, List.nil_append]
    rw [scanFrom, lead_three (by rw [toNat_byteOfNat]; omega) (by rw [toNat_byteOfNat]; omega),
      List.nil_append, scanFrom_more (by simp only [toNat_byteOfNat]; split <;> omega)
        (by simp only [toNat_byteOfNat]; split <;> omega),
      scanFrom_last (by rw [toNat_byteOfNat]; omega) (by rw [toNat_byteOfNat]; omega)]
    simp only [toNat_byteOfNat]
    rw [hchar (by omega)]
  · simp only [List.cons_append, List.nil_append]
    rw [scanFrom, lead_four (by rw [toNat_byteOfNat]; omega) (by rw [toNat_byteOfNat]; omega),
      List.nil_append, scanFrom_more (by simp only [toNat_byteOfNat]; split <;> omega)
        (by simp only [toNat_byteOfNat]; split <;> omega),
      scanFrom_more (by rw [toNat_byteOfNat]; omega) (by rw [toNat_byteOfNat]; omega),
      scanFrom_last (by rw [toNat_byteOfNat]; omega) (by rw [toNat_byteOfNat]; omega)]
    simp only [toNat_byteOfNat]
    rw [hchar (by omega)]

/-! ## Scans without gaps -/

/-- The bytes `front` begin a sequence: whichever bytes within the bounds complete it, the whole is the form of
the character that they give. -/
def Begins (front : Bytes) : (bits least greatest more : Nat) → Prop
  | bits, least, greatest, 0 => ∀ b : UInt8, least ≤ b.toNat → b.toNat ≤ greatest →
    String.utf8EncodeChar (Char.ofNat (bits * 64 + b.toNat % 64)) = front ++ [b]
  | bits, least, greatest, more + 1 => ∀ b : UInt8, least ≤ b.toNat → b.toNat ≤ greatest →
    Begins (front ++ [b]) (bits * 64 + b.toNat % 64) 0x80 0xBF more

theorem begins_two {b : UInt8} (h : 0xC2 ≤ b.toNat) (h' : b.toNat < 0xE0) :
    Begins [b] (b.toNat % 32) 0x80 0xBF 0 := by
  intro c hc hc'
  simp only [String.utf8EncodeChar]
  rw [toNat_charOfNat (.inl (by omega)), if_neg (by omega), if_pos (by omega),
    byteOfNat_eq (b := b) (by omega), byteOfNat_eq (b := c) (by omega)]
  rfl

theorem begins_three {b : UInt8} (h : 0xE0 ≤ b.toNat) (h' : b.toNat < 0xF0) :
    Begins [b] (b.toNat % 16) (if b.toNat = 0xE0 then 0xA0 else 0x80)
      (if b.toNat = 0xED then 0x9F else 0xBF) 1 := by
  intro c hc hc' d hd hd'
  have hleast : 0x80 ≤ c.toNat ∧ (b.toNat = 0xE0 → 0xA0 ≤ c.toNat) := by split at hc <;> omega
  have hgreatest : c.toNat ≤ 0xBF ∧ (b.toNat = 0xED → c.toNat ≤ 0x9F) := by split at hc' <;> omega
  simp only [String.utf8EncodeChar]
  rw [toNat_charOfNat (by simp only [Nat.isValidChar]; omega), if_neg (by omega), if_neg (by omega),
    if_pos (by omega), byteOfNat_eq (b := b) (by omega), byteOfNat_eq (b := c) (by omega),
    byteOfNat_eq (b := d) (by omega)]
  rfl

theorem begins_four {b : UInt8} (h : 0xF0 ≤ b.toNat) (h' : b.toNat ≤ 0xF4) :
    Begins [b] (b.toNat % 8) (if b.toNat = 0xF0 then 0x90 else 0x80)
      (if b.toNat = 0xF4 then 0x8F else 0xBF) 2 := by
  intro c hc hc' d hd hd' e he he'
  have hleast : 0x80 ≤ c.toNat ∧ (b.toNat = 0xF0 → 0x90 ≤ c.toNat) := by split at hc <;> omega
  have hgreatest : c.toNat ≤ 0xBF ∧ (b.toNat = 0xF4 → c.toNat ≤ 0x8F) := by split at hc' <;> omega
  simp only [String.utf8EncodeChar]
  rw [toNat_charOfNat (by simp only [Nat.isValidChar]; omega), if_neg (by omega), if_neg (by omega),
    if_neg (by omega), byteOfNat_eq (b := b) (by omega), byteOfNat_eq (b := c) (by omega),
    byteOfNat_eq (b := d) (by omega), byteOfNat_eq (b := e) (by omega)]
  rfl

/-- The bytes `front` are those of an unfinished sequence that led to the state. -/
def Leads (front : Bytes) : State → Prop
  | .start => front = []
  | .inside bits least greatest more => Begins front bits least greatest more

/-- The form of what a scan found. -/
def written (found : List (Option Char)) : Bytes :=
  (found.map (·.getD '\uFFFD')).flatMap String.utf8EncodeChar

theorem written_append (xs ys : List (Option Char)) : written (xs ++ ys) = written xs ++ written ys := by
  simp [written]

/-- An ASCII character is its own byte. -/
theorem encodeChar_of_ascii {b : UInt8} (h : b.toNat < 0x80) : String.utf8EncodeChar (Char.ofNat b.toNat) = [b] := by
  simp only [String.utf8EncodeChar]
  rw [toNat_charOfNat (.inl (by omega)), if_pos (by omega), byteOfNat_eq (b := b) (by omega)]

theorem leads_lead {b : UInt8} (h : (lead b).1.all Option.isSome) :
    ∃ front, Leads front (lead b).2 ∧ written (lead b).1 ++ front = [b] := by
  by_cases h80 : b.toNat < 0x80
  · have hl : lead b = ([some (Char.ofNat b.toNat)], .start) := by simp only [lead, h80, if_true]
    exact ⟨[], by rw [hl]; rfl, by simp [hl, written, encodeChar_of_ascii h80]⟩
  by_cases hC2 : b.toNat < 0xC2
  · simp [lead, h80, hC2] at h
  by_cases hE0 : b.toNat < 0xE0
  · rw [lead_two (by omega) hE0]
    exact ⟨[b], begins_two (by omega) hE0, rfl⟩
  by_cases hF0 : b.toNat < 0xF0
  · rw [lead_three (by omega) hF0]
    exact ⟨[b], begins_three (by omega) hF0, rfl⟩
  by_cases hF4 : b.toNat ≤ 0xF4
  · rw [lead_four (by omega) hF4]
    exact ⟨[b], begins_four (by omega) hF4, rfl⟩
  · have hl : lead b = ([none], .start) := by
      simp only [lead, h80, hC2, hE0, hF0, show ¬ b.toNat = 0xE0 by omega, show ¬ b.toNat = 0xED by omega,
        show ¬ b.toNat = 0xF0 by omega, show ¬ b.toNat < 0xF4 by omega, show ¬ b.toNat = 0xF4 by omega,
        if_false]
    simp [hl] at h

/-- A scan without gaps has found the text whose form was read. -/
theorem written_scanFrom {s : State} {front bs : Bytes} (hs : Leads front s)
    (h : (scanFrom s bs).all Option.isSome) : written (scanFrom s bs) = front ++ bs := by
  induction bs generalizing s front with
  | nil =>
    cases s with
    | start =>
      obtain rfl : front = [] := hs
      rfl
    | inside bits least greatest more => simp [scanFrom] at h
  | cons b bs ih =>
    cases s with
    | start =>
      obtain rfl : front = [] := hs
      rw [scanFrom, List.all_append, Bool.and_eq_true] at h
      obtain ⟨front, hlead, he⟩ := leads_lead h.1
      rw [scanFrom, written_append, ih hlead h.2, ← List.append_assoc, he]
      rfl
    | inside bits least greatest more =>
      by_cases hb : least ≤ b.toNat ∧ b.toNat ≤ greatest
      · cases more with
        | zero =>
          have hform : String.utf8EncodeChar (Char.ofNat (bits * 64 + b.toNat % 64)) = front ++ [b] :=
            hs b hb.1 hb.2
          have hstart : Leads [] .start := rfl
          rw [scanFrom_last hb.1 hb.2, List.all_cons, Bool.and_eq_true] at h
          rw [scanFrom_last hb.1 hb.2, ← List.singleton_append, written_append,
            ih hstart h.2]
          simp [written, hform]
        | succ more =>
          have hmore : Leads (front ++ [b]) (.inside (bits * 64 + b.toNat % 64) 0x80 0xBF more) :=
            hs b hb.1 hb.2
          rw [scanFrom_more hb.1 hb.2] at h ⊢
          rw [ih hmore h, List.append_assoc, List.singleton_append]
      · -- a byte outside the bounds leaves a gap
        rw [scanFrom, if_neg hb] at h
        simp at h

/-! ## Texts -/

theorem scan_encode (s : String) : scan (encode s) = s.toList.map some := by
  unfold scan encode
  induction s.toList with
  | nil => rfl
  | cons c cs ih => rw [List.flatMap_cons, scanFrom_start_append, ih, List.map_cons]

theorem lossy_encode (s : String) : lossy (encode s) = s := by
  rw [lossy, scan_encode, List.map_map]
  simp [Function.comp_def]

theorem isValid_encode (s : String) : isValid (encode s) = true := by
  rw [isValid, scan_encode]
  simp

/-- A run of bytes is read as a text just when it is the text's form. -/
theorem decode?_eq_some_iff {bs : Bytes} {s : String} : decode? bs = some s ↔ bs = encode s := by
  refine ⟨fun h => ?_, fun h => by rw [decode?, h, isValid_encode, lossy_encode, if_pos rfl]⟩
  unfold decode? at h
  split at h
  · rename_i hv
    obtain rfl := Option.some.inj h
    have hstart : Leads [] .start := rfl
    have hw := written_scanFrom hstart hv
    rw [encode, lossy, String.toList_ofList]
    exact hw.symm
  · cases h

theorem length_encode (s : String) : (encode s).length = s.utf8ByteSize := by
  rw [← String.size_toByteArray, ← String.utf8Encode_toList]
  simp [encode, List.utf8Encode]

theorem zero_mem_encodeChar_iff {c : Char} : 0 ∈ String.utf8EncodeChar c ↔ c = '\x00' := by
  have hv : c.toNat < 0xD800 ∨ (0xDFFF < c.toNat ∧ c.toNat < 0x110000) := c.valid
  have hbyte (n : Nat) : (0 : UInt8) = UInt8.ofNat n ↔ n % 256 = 0 := by
    rw [← UInt8.toNat_inj, toNat_byteOfNat]
    exact eq_comm
  have hc : c = '\x00' ↔ c.toNat = 0 := by
    rw [← Char.toNat_inj]
    rfl
  simp only [String.utf8EncodeChar, show c.val.toNat = c.toNat from rfl, hc]
  -- one case for each length of the form
  repeat' split
  all_goals
    simp only [List.mem_cons, List.not_mem_nil, or_false, hbyte]
    omega

/-- A NUL byte in the form of a text is a NUL of the text. -/
theorem zero_mem_encode_iff {s : String} : 0 ∈ encode s ↔ '\x00' ∈ s.toList := by
  simp [encode, zero_mem_encodeChar_iff]

/-! ## Scans without a NUL -/

theorem lead_of_gap {b : UInt8} (h : (lead b).1.all Option.isSome = false) : lead b = ([none], .start) := by
  unfold lead at h ⊢
  dsimp only at h ⊢
  repeat' split
  all_goals simp_all

theorem written_nul {found : List (Option Char)} (h : some '\x00' ∈ found) : 0 ∈ written found :=
  List.mem_flatMap.2 ⟨'\x00', List.mem_map.2 ⟨_, h, rfl⟩, zero_mem_encodeChar_iff.2 rfl⟩

/-- A first byte other than NUL gives no NUL, and leaves the scan in a state that no NUL led to. -/
theorem lead_of_ne_zero {b : UInt8} (hb : b ≠ 0) :
    some '\x00' ∉ (lead b).1 ∧ ∃ front, 0 ∉ front ∧ Leads front (lead b).2 := by
  cases h : (lead b).1.all Option.isSome with
  | false =>
    rw [lead_of_gap h]
    exact ⟨by simp, [], by simp, rfl⟩
  | true =>
    obtain ⟨front, hfront, he⟩ := leads_lead h
    have hnul : 0 ∉ written (lead b).1 ++ front := by
      rw [he]
      simpa using hb.symm
    rw [List.mem_append, not_or] at hnul
    exact ⟨fun hmem => hnul.1 (written_nul hmem), front, hnul.2, hfront⟩

/-- A scan of bytes without a NUL finds none. -/
theorem nul_notMem_scanFrom {s : State} {front bs : Bytes} (hs : Leads front s) (hfront : 0 ∉ front) (hbs : 0 ∉ bs) :
    some '\x00' ∉ scanFrom s bs := by
  induction bs generalizing s front with
  | nil => cases s <;> simp [scanFrom]
  | cons b bs ih =>
    rw [List.mem_cons, not_or] at hbs
    obtain ⟨hlead, front', hfront', hleads⟩ := lead_of_ne_zero (Ne.symm hbs.1)
    have hrest := ih hleads hfront' hbs.2
    cases s with
    | start =>
      rw [scanFrom, List.mem_append]
      exact not_or.2 ⟨hlead, hrest⟩
    | inside bits least greatest more =>
      by_cases hb : least ≤ b.toNat ∧ b.toNat ≤ greatest
      · have hnext : 0 ∉ front ++ [b] := by simpa [hfront] using hbs.1
        cases more with
        | zero =>
          have hform : String.utf8EncodeChar (Char.ofNat (bits * 64 + b.toNat % 64)) = front ++ [b] :=
            hs b hb.1 hb.2
          rw [scanFrom_last hb.1 hb.2, List.mem_cons, not_or]
          have hstart : Leads [] .start := rfl
          refine ⟨fun h => hnext ?_, ih hstart (by simp) hbs.2⟩
          rw [← hform, ← Option.some.inj h]
          exact zero_mem_encodeChar_iff.2 rfl
        | succ more =>
          rw [scanFrom_more hb.1 hb.2]
          exact ih (hs b hb.1 hb.2) hnext hbs.2
      · rw [scanFrom, if_neg hb, List.mem_cons, List.mem_append]
        simp [hlead, hrest]

/-- Replacement brings no NUL into a text. -/
theorem nul_notMem_lossy {bs : Bytes} (h : 0 ∉ bs) : '\x00' ∉ (lossy bs).toList := by
  have hstart : Leads [] .start := rfl
  have hscan : some '\x00' ∉ scanFrom .start bs := nul_notMem_scanFrom hstart (by simp) h
  intro hmem
  rw [lossy, String.toList_ofList] at hmem
  obtain ⟨found, hfound, hc⟩ := List.mem_map.1 hmem
  cases found with
  | none => exact absurd hc (by decide)
  | some c => exact hscan (by rw [← show c = '\x00' from hc]; exact hfound)

end DeviceTree.Utf8
