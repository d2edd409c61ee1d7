import DeviceTree.Proofs.History
import DeviceTree.Proofs.Lines
import DeviceTree.Proofs.NodeName
import DeviceTree.Proofs.ShownValue

/-!
# What source text tells

Source text is told apart into lines, since no line has a line end in it (`lines_eq_of_toSource`). A line tells what it
is for: reservations, properties, braces and blank lines are never taken for one another, so the lines of a node end
where its own closing brace is, and what is in between is read level by level (`nodeLines_append_inj`). Names keep to
characters that are no marks, so a line with a name tells it and its label.

The one thing that is not told is where a text with quotation marks in it ends.

* `same_or_quoted_of_toSource`: boot information that is shown alike is the same but for recorded paths, or has a
  quotation mark in a value.
-/

namespace DeviceTree

/-- The items of a list are told apart from what follows them, if that does not begin like one of them. -/
theorem map_append_inj {α β : Type} {f : α → β} {xs ys : List α} {s t : List β}
    (hinj : ∀ x ∈ xs, ∀ y ∈ ys, f x = f y → x = y) (hs : ∀ y ∈ ys, s.head? ≠ some (f y))
    (ht : ∀ x ∈ xs, t.head? ≠ some (f x)) (h : xs.map f ++ s = ys.map f ++ t) : xs = ys ∧ s = t := by
  induction xs generalizing ys with
  | nil =>
    cases ys with
    | nil => exact ⟨rfl, h⟩
    | cons y ys => exact absurd (congrArg List.head? h) (hs y List.mem_cons_self)
  | cons x xs ih =>
    cases ys with
    | nil => exact absurd (congrArg List.head? h).symm (ht x List.mem_cons_self)
    | cons y ys =>
      obtain ⟨hhead, hmore⟩ := List.cons.inj h
      obtain rfl := hinj x List.mem_cons_self y List.mem_cons_self hhead
      obtain ⟨rfl, hrest⟩ := ih (fun x hx y hy => hinj x (.tail _ hx) y (.tail _ hy)) (fun y hy => hs y (.tail _ hy))
        (fun x hx => ht x (.tail _ hx)) hmore
      exact ⟨rfl, hrest⟩

namespace SourceText

/-! ## Names -/

/-- A character of a regular base name, or the mark of a unit address. -/
def NameChar (c : Char) : Prop :=
  c ∈ NodeName.baseChars ∨ c = '@'

instance : DecidablePred NameChar := fun c => inferInstanceAs (Decidable (c ∈ NodeName.baseChars ∨ c = '@'))

/-- The marks of source text are no characters of names. -/
theorem not_nameChar {c : Char} (hc : c ∈ ['\n', ' ', '/', ':', ';']) : ¬NameChar c := by
  have hall : ['\n', ' ', '/', ':', ';'].all (¬NameChar ·) = true := by decide
  exact of_decide_eq_true (List.all_eq_true.1 hall c hc)

/-- The text keeps to these characters. It may be empty. -/
def IsName (s : String) : Prop :=
  ∀ c ∈ s.toList, NameChar c

instance : DecidablePred IsName := fun s =>
  decidable_of_iff (s.toList.all (NameChar ·) = true) (by simp [IsName])

/-- What stands in the place of a name: a name, or the slash of the root. -/
def IsShownName (s : String) : Prop :=
  ∀ c ∈ s.toList, NameChar c ∨ c = '/'

theorem IsName.isShownName {s : String} (h : IsName s) : IsShownName s :=
  fun c hc => .inl (h c hc)

theorem isShownName_opening {s : String} (h : IsName s) : IsShownName (if s = "" then "/" else s) := by
  split
  · exact fun c hc => .inr (List.mem_singleton.1 hc)
  · exact h.isShownName

/-- A slash is shown for no name only. -/
theorem shownName_inj {s t : String} (hs : IsName s) (ht : IsName t)
    (h : (if s = "" then "/" else s) = if t = "" then "/" else t) : s = t := by
  have hslash : ¬IsName "/" := fun h => not_nameChar (by decide) (h '/' (by decide))
  split at h <;> split at h
  · rename_i hs ht
    rw [hs, ht]
  · exact absurd (h ▸ ht) hslash
  · exact absurd (h ▸ hs) hslash
  · exact h

/-- A name and its label are told apart, and both from the blank or the semicolon behind them. -/
theorem labelled_inj {label label' : Option String} {name name' : String} {x y : Char} {s t : List Char}
    (hlabel : ∀ l ∈ label, IsName l) (hlabel' : ∀ l ∈ label', IsName l) (hname : IsShownName name)
    (hname' : IsShownName name') (hx : x = ' ' ∨ x = ';') (hy : y = ' ' ∨ y = ';')
    (h : (ofLabel label).toList ++ (name.toList ++ x :: s) = (ofLabel label').toList ++ (name'.toList ++ y :: t)) :
    label = label' ∧ name = name' ∧ x :: s = y :: t := by
  -- a label ends with the first colon, and no name has one
  have hcolon : ¬(NameChar ':' ∨ ':' = '/') := not_or.2 ⟨not_nameChar (by decide), by decide⟩
  have hend {c : Char} (hc : c = ' ' ∨ c = ';') : ¬(NameChar c ∨ c = '/') ∧ c ≠ ':' := by
    rcases hc with rfl | rfl
    · exact ⟨not_or.2 ⟨not_nameChar (by decide), by decide⟩, by decide⟩
    · exact ⟨not_or.2 ⟨not_nameChar (by decide), by decide⟩, by decide⟩
  have hlist (l : String) : (ofLabel (some l)).toList = l.toList ++ [':', ' '] := by simp [ofLabel]
  cases label with
  | none =>
    cases label' with
    | none =>
      obtain ⟨htext, rfl, rfl⟩ := append_cons_inj hname hname' (hend hx).1 (hend hy).1 h
      exact ⟨rfl, String.toList_inj.1 htext, rfl⟩
    | some l' =>
      rw [hlist, List.append_assoc] at h
      obtain ⟨-, hmark, -⟩ := append_cons_inj hname (hlabel' l' rfl).isShownName (hend hx).1 hcolon h
      exact absurd hmark (hend hx).2
  | some l =>
    cases label' with
    | none =>
      rw [hlist, List.append_assoc] at h
      obtain ⟨-, hmark, -⟩ := append_cons_inj (hlabel l rfl).isShownName hname' hcolon (hend hy).1 h
      exact absurd hmark.symm (hend hy).2
    | some l' =>
      rw [hlist, hlist, List.append_assoc, List.append_assoc] at h
      obtain ⟨hl, -, hmore⟩ :=
        append_cons_inj (hlabel l rfl).isShownName (hlabel' l' rfl).isShownName hcolon hcolon h
      obtain ⟨htext, rfl, rfl⟩ := append_cons_inj hname hname' (hend hx).1 (hend hy).1 (List.cons.inj hmore).2
      exact ⟨by rw [String.toList_inj.1 hl], String.toList_inj.1 htext, rfl⟩

end SourceText

open SourceText

/-- The node's name and label and those of its properties keep to the characters of names. -/
def Node.PlainlyNamed (n : Node) : Prop :=
  IsName n.name ∧ (∀ l ∈ n.label, IsName l) ∧ ∀ p ∈ n.properties, IsName p.name ∧ ∀ l ∈ p.label, IsName l

instance : DecidablePred Node.PlainlyNamed := fun _ => inferInstanceAs (Decidable (_ ∧ _ ∧ _))

/-- So do those of all nodes. -/
def BootInfo.PlainlyNamed (info : BootInfo) : Prop :=
  ∀ n ∈ info.root.preorder, n.PlainlyNamed

instance : DecidablePred BootInfo.PlainlyNamed :=
  fun info => inferInstanceAs (Decidable (∀ n ∈ info.root.preorder, n.PlainlyNamed))

/-- A value of the node has a quotation mark. -/
def Node.Quoted (n : Node) : Prop :=
  ∃ p ∈ n.properties, 0x22 ∈ p.value

instance : DecidablePred Node.Quoted := fun n => inferInstanceAs (Decidable (∃ p ∈ n.properties, 0x22 ∈ p.value))

/-- A value of some node has one. -/
def BootInfo.Quoted (info : BootInfo) : Prop :=
  ∃ n ∈ info.root.preorder, n.Quoted

instance : DecidablePred BootInfo.Quoted := fun info => inferInstanceAs (Decidable (∃ n ∈ info.root.preorder, n.Quoted))

namespace SourceText

/-! ## What a line tells -/

variable {depth : Nat}

theorem toList_opening (n : Node) : (opening depth n).toList = (indentation depth).toList ++
    ((ofLabel n.label).toList ++ ((if n.name = "" then "/" else n.name).toList ++ [' ', '\x7b'])) := by
  simp only [opening, String.toList_append, List.append_assoc]
  rfl

theorem toList_ofProperty (p : Property) : (ofProperty depth p).toList = (indentation depth).toList ++
    ((ofLabel p.label).toList ++ (p.name.toList ++ ((ofForm p.form).toList ++ [';']))) := by
  simp only [ofProperty, String.toList_append, List.append_assoc]
  rfl

theorem toList_closing (depth : Nat) : (closing depth).toList = (indentation depth).toList ++ ['\x7d', ';'] := by
  simp only [closing, String.toList_append]
  rfl

theorem toList_ofReservation (r : Reservation) : (ofReservation r).toList = "/memreserve/ ".toList ++
    ((Hex.prefixed r.address.toNat).toList ++ ' ' :: ((Hex.prefixed r.size.toNat).toList ++ [';'])) := by
  show ("/memreserve/ " ++ Hex.prefixed r.address.toNat ++ " " ++ Hex.prefixed r.size.toNat ++ ";").toList = _
  simp only [String.toList_append, List.append_assoc]
  rfl

theorem opening_inj {m n : Node} (hm : m.PlainlyNamed) (hn : n.PlainlyNamed) (h : opening depth m = opening depth n) :
    m.label = n.label ∧ m.name = n.name := by
  have hlist := congrArg String.toList h
  rw [toList_opening, toList_opening] at hlist
  obtain ⟨hlabel, hname, -⟩ := labelled_inj hm.2.1 hn.2.1 (isShownName_opening hm.1) (isShownName_opening hn.1)
    (.inl rfl) (.inl rfl) (List.append_cancel_left hlist)
  exact ⟨hlabel, shownName_inj hm.1 hn.1 hname⟩

/-- Behind a property's name there is a blank or a semicolon. -/
theorem ofForm_front (f : ValueForm) : ∃ c cs, (ofForm f).toList ++ [';'] = c :: cs ∧ (c = ' ' ∨ c = ';') := by
  cases f with
  | empty => exact ⟨';', [], rfl, .inr rfl⟩
  | texts texts => exact ⟨' ', _, by rw [toList_ofForm_texts, List.cons_append], .inl rfl⟩
  | words words => exact ⟨' ', _, by rw [toList_ofForm_words, List.cons_append], .inl rfl⟩
  | bytes bytes => exact ⟨' ', _, by rw [toList_ofForm_bytes, List.cons_append], .inl rfl⟩

theorem ofProperty_inj {p q : Property} (hp : IsName p.name ∧ ∀ l ∈ p.label, IsName l)
    (hq : IsName q.name ∧ ∀ l ∈ q.label, IsName l) (hvalue : 0x22 ∉ p.value) (hvalue' : 0x22 ∉ q.value)
    (h : ofProperty depth p = ofProperty depth q) : p = q := by
  have hlist := congrArg String.toList h
  rw [toList_ofProperty, toList_ofProperty] at hlist
  obtain ⟨c, cs, hfront, hc⟩ := ofForm_front p.form
  obtain ⟨c', cs', hfront', hc'⟩ := ofForm_front q.form
  rw [hfront, hfront'] at hlist
  obtain ⟨hlabel, hname, hform⟩ :=
    labelled_inj hp.2 hq.2 hp.1.isShownName hq.1.isShownName hc hc' (List.append_cancel_left hlist)
  rw [← hfront, ← hfront'] at hform
  have hsame := value_eq_of_ofForm hvalue hvalue' (String.toList_inj.1 (List.append_cancel_right hform))
  cases p
  cases q
  rw [Property.mk.injEq]
  exact ⟨hname, hsame, hlabel⟩

theorem prefixed_inj {m n : Nat} (h : (Hex.prefixed m).toList = (Hex.prefixed n).toList) : m = n := by
  have hnumber := congrArg Assembler.number? h
  rw [Assembler.number?_prefixed, Assembler.number?_prefixed] at hnumber
  exact Option.some.inj hnumber

theorem ofReservation_inj {r r' : Reservation} (h : ofReservation r = ofReservation r') : r = r' := by
  have hword (n : Nat) := (Assembler.isWord_prefixed n).2
  have hlist := congrArg String.toList h
  rw [toList_ofReservation, toList_ofReservation] at hlist
  obtain ⟨haddress, -, hmore⟩ :=
    append_cons_inj (hword _) (hword _) (by decide) (by decide) (List.append_cancel_left hlist)
  obtain ⟨hsize, -⟩ := append_cons_inj (hword _) (hword _) (by decide) (by decide) hmore
  cases r
  cases r'
  rw [Reservation.mk.injEq]
  exact ⟨UInt64.toNat_inj.1 (prefixed_inj haddress), UInt64.toNat_inj.1 (prefixed_inj hsize)⟩

/-! ## Which line it is -/

/-- A property is on the level below the node, so there is a blank where the node has its closing brace. -/
theorem ofProperty_blank (depth : Nat) (p : Property) :
    ∃ cs, (ofProperty (depth + 1) p).toList = (indentation depth).toList ++ ' ' :: cs := by
  have hindentation : (indentation (depth + 1)).toList = (indentation depth).toList ++ [' ', ' ', ' ', ' '] := by
    rw [indentation, String.toList_ofList, Nat.mul_succ, ← List.replicate_append_replicate, indentation,
      String.toList_ofList]
    rfl
  rw [toList_ofProperty, hindentation, List.append_assoc]
  exact ⟨_, rfl⟩

theorem ofProperty_ne_closing (p : Property) : ofProperty (depth + 1) p ≠ closing depth := by
  intro h
  obtain ⟨cs, hlist⟩ := ofProperty_blank depth p
  rw [h, toList_closing] at hlist
  exact absurd (List.cons.inj (List.append_cancel_left hlist)).1 (by decide)

theorem ofProperty_ne_blank (p : Property) : ofProperty (depth + 1) p ≠ "" := by
  intro h
  obtain ⟨cs, hlist⟩ := ofProperty_blank depth p
  rw [h] at hlist
  exact List.append_ne_nil_of_right_ne_nil _ (List.cons_ne_nil _ _) hlist.symm

theorem closing_ne_blank : closing depth ≠ "" := by
  intro h
  have hlist := toList_closing depth
  rw [h] at hlist
  exact List.append_ne_nil_of_right_ne_nil _ (List.cons_ne_nil _ _) hlist.symm

theorem opening_ne_ofReservation (n : Node) (r : Reservation) : opening depth n ≠ ofReservation r := by
  intro h
  have hlast := congrArg (List.getLast? ∘ String.toList) h
  simp [toList_opening, toList_ofReservation, List.getLast?_cons] at hlast

theorem blank_ne_ofReservation (r : Reservation) : "" ≠ ofReservation r := by
  intro h
  have hlist := congrArg String.toList h
  rw [toList_ofReservation] at hlist
  cases hlist

/-! ## Nodes -/

/-- The lines of children end where the node does. -/
theorem childLines_append_inj {cs ds : List Node} {s t : List String}
    (hinj : ∀ c ∈ cs, ∀ d ∈ ds, ∀ s t : List String, nodeLines c (depth + 1) ++ s = nodeLines d (depth + 1) ++ t →
      c.withoutPaths = d.withoutPaths ∧ s = t)
    (h : cs.flatMap (fun c => "" :: nodeLines c (depth + 1)) ++ closing depth :: s =
      ds.flatMap (fun d => "" :: nodeLines d (depth + 1)) ++ closing depth :: t) :
    cs.map Node.withoutPaths = ds.map Node.withoutPaths ∧ s = t := by
  induction cs generalizing ds with
  | nil =>
    cases ds with
    | nil => exact ⟨rfl, (List.cons.inj h).2⟩
    | cons d ds => exact absurd (List.cons.inj h).1 closing_ne_blank
  | cons c cs ih =>
    cases ds with
    | nil => exact absurd (List.cons.inj h).1.symm closing_ne_blank
    | cons d ds =>
      rw [List.flatMap_cons, List.flatMap_cons, List.append_assoc, List.append_assoc] at h
      obtain ⟨hfirst, hmore⟩ := hinj c List.mem_cons_self d List.mem_cons_self _ _ (List.cons.inj h).2
      obtain ⟨hmap, hrest⟩ := ih (fun c hc d hd => hinj c (.tail _ hc) d (.tail _ hd)) hmore
      exact ⟨by rw [List.map_cons, List.map_cons, hfirst, hmap], hrest⟩

/-- Behind the properties of a node there is no other one. -/
theorem childLines_head_ne (cs : List Node) (s : List String) (p : Property) :
    (cs.flatMap (fun c => "" :: nodeLines c (depth + 1)) ++ closing depth :: s).head? ≠
      some (ofProperty (depth + 1) p) := by
  intro h
  cases cs with
  | nil => exact ofProperty_ne_closing p (Option.some.inj h).symm
  | cons c cs => exact ofProperty_ne_blank p (Option.some.inj h).symm

/-- The lines of a node tell it, and where they end. -/
theorem nodeLines_append_inj {m n : Node} {s t : List String}
    (hm : ∀ k ∈ m.preorder, k.PlainlyNamed ∧ ¬k.Quoted) (hn : ∀ k ∈ n.preorder, k.PlainlyNamed ∧ ¬k.Quoted)
    (h : nodeLines m depth ++ s = nodeLines n depth ++ t) : m.withoutPaths = n.withoutPaths ∧ s = t := by
  induction m using Node.induction generalizing n depth s t with
  | step m ih =>
    rw [nodeLines_eq, nodeLines_eq n] at h
    simp only [List.cons_append, List.append_assoc, List.nil_append] at h
    obtain ⟨hopening, hbody⟩ := List.cons.inj h
    obtain ⟨hnamed, hquoted⟩ := hm m m.mem_preorder_self
    obtain ⟨hnamed', hquoted'⟩ := hn n n.mem_preorder_self
    obtain ⟨hlabel, hname⟩ := opening_inj hnamed hnamed' hopening
    -- the properties end with the first line that is blank or closes the node
    obtain ⟨hproperties, hbelow⟩ := map_append_inj
      (fun p hp q hq => ofProperty_inj (hnamed.2.2 p hp) (hnamed'.2.2 q hq) (fun hmem => hquoted ⟨p, hp, hmem⟩)
        fun hmem => hquoted' ⟨q, hq, hmem⟩)
      (fun p _ => childLines_head_ne _ _ p) (fun p _ => childLines_head_ne _ _ p) hbody
    obtain ⟨hchildren, hrest⟩ := childLines_append_inj
      (fun c hc d hd s t => ih c hc (fun k hk => hm k (Node.mem_preorder_of_child hc hk))
        fun k hk => hn k (Node.mem_preorder_of_child hd hk)) hbelow
    refine ⟨?_, hrest⟩
    rw [Node.withoutPaths_eq, Node.withoutPaths_eq n, hname, hlabel, hproperties, hchildren]

/-! ## Lines -/

/-- The text has no line end. -/
def IsLine (s : String) : Prop :=
  '\n' ∉ s.toList

instance : DecidablePred IsLine := fun s => inferInstanceAs (Decidable ('\n' ∉ s.toList))

@[simp] theorem isLine_append {s t : String} : IsLine (s ++ t) ↔ IsLine s ∧ IsLine t := by
  simp [IsLine]

theorem IsName.isLine {s : String} (h : IsName s) : IsLine s :=
  fun hmem => not_nameChar (by decide) (h _ hmem)

theorem isLine_ofLabel {label : Option String} (h : ∀ l ∈ label, IsName l) : IsLine (ofLabel label) := by
  cases label with
  | none => exact List.not_mem_nil
  | some l => exact isLine_append.2 ⟨(h l rfl).isLine, by decide⟩

theorem isLine_indentation : IsLine (indentation depth) := by
  simp [IsLine, indentation]

theorem isLine_prefixed (n : Nat) : IsLine (Hex.prefixed n) :=
  fun hmem => absurd ((Assembler.isWord_prefixed n).2 _ hmem) (by decide)

theorem newline_notMem_digits (width n : Nat) : '\n' ∉ Hex.digits width n := by
  intro hmem
  obtain ⟨d, hd, hc⟩ := Hex.mem_digits hmem
  have hall : ∀ d < 16, '\n' ≠ Nat.digitChar d := by decide
  exact hall d hd hc

theorem notMem_intercalate {α : Type} {f : α → List Char} {c : Char} {sep : List Char} {xs : List α} (hsep : c ∉ sep)
    (hxs : ∀ x ∈ xs, c ∉ f x) : c ∉ sep.intercalate (xs.map f) := by
  induction xs with
  | nil => exact List.not_mem_nil
  | cons x xs ih =>
    obtain ⟨hx, hmore⟩ := List.forall_mem_cons.1 hxs
    cases xs with
    | nil => rwa [List.map_singleton, List.intercalate_singleton]
    | cons y ys =>
      rw [List.map_cons, List.map_cons, List.intercalate_cons_cons, ← List.map_cons]
      simp only [List.mem_append, not_or]
      exact ⟨⟨hx, hsep⟩, ih hmore⟩

/-- The texts of a value that is shown as texts have no line ends. -/
theorem newline_notMem_texts {p : Property} (h : Property.showsAsTexts p.value = true) {text : String}
    (ht : text ∈ p.texts) : '\n' ∉ text.toList := by
  simp only [Property.showsAsTexts, Bool.and_eq_true, List.all_eq_true] at h
  intro hmem
  have hbyte := h.1.1.1 0x0A (Property.mem_value_of_mem_texts ht hmem (by decide))
  exact absurd hbyte (by decide)

theorem isLine_ofForm (p : Property) : IsLine (ofForm p.form) := by
  unfold Property.form
  split
  · exact List.not_mem_nil
  · split
    · rename_i htexts
      have hitems : '\n' ∉ ", ".toList.intercalate (p.texts.map quoted) :=
        notMem_intercalate (by decide) fun text ht => by simpa [quoted] using newline_notMem_texts htexts ht
      rw [IsLine, toList_ofForm_texts]
      simpa using hitems
    · split
      · have hitems : '\n' ∉ " ".toList.intercalate ((Property.quads p.value).map hexWord) :=
          notMem_intercalate (by decide) fun w _ => by simpa [hexWord] using newline_notMem_digits 8 (BigEndian.value w)
        rw [IsLine, toList_ofForm_words]
        simpa using hitems
      · have hitems : '\n' ∉ " ".toList.intercalate (p.value.map hexByte) :=
          notMem_intercalate (by decide) fun b _ => newline_notMem_digits 2 b.toNat
        rw [IsLine, toList_ofForm_bytes]
        simpa using hitems

theorem isLine_opening {n : Node} (h : n.PlainlyNamed) : IsLine (opening depth n) := by
  have hname : IsLine (if n.name = "" then "/" else n.name) := by
    split
    · decide
    · exact h.1.isLine
  simp only [opening, isLine_append]
  exact ⟨⟨⟨isLine_indentation, isLine_ofLabel h.2.1⟩, hname⟩, by decide⟩

theorem isLine_ofProperty {p : Property} (h : IsName p.name ∧ ∀ l ∈ p.label, IsName l) :
    IsLine (ofProperty depth p) := by
  simp only [ofProperty, isLine_append]
  exact ⟨⟨⟨⟨isLine_indentation, isLine_ofLabel h.2⟩, h.1.isLine⟩, isLine_ofForm p⟩, by decide⟩

theorem isLine_nodeLines {n : Node} (h : ∀ k ∈ n.preorder, k.PlainlyNamed) : ∀ line ∈ nodeLines n depth, IsLine line := by
  induction n using Node.induction generalizing depth with
  | step n ih =>
    have hn := h n n.mem_preorder_self
    intro line hline
    rw [nodeLines_eq] at hline
    simp only [List.cons_append, List.mem_cons, List.mem_append, List.mem_map, List.mem_flatMap, List.not_mem_nil,
      or_false] at hline
    rcases hline with rfl | ((⟨p, hp, rfl⟩ | ⟨c, hc, rfl | hline⟩) | rfl)
    · exact isLine_opening hn
    · exact isLine_ofProperty (hn.2.2 p hp)
    · exact List.not_mem_nil
    · exact ih c hc (fun k hk => h k (Node.mem_preorder_of_child hc hk)) line hline
    · exact isLine_append.2 ⟨isLine_indentation, by decide⟩

theorem isLine_ofReservation (r : Reservation) : IsLine (ofReservation r) := by
  show IsLine ("/memreserve/ " ++ Hex.prefixed r.address.toNat ++ " " ++ Hex.prefixed r.size.toNat ++ ";")
  simp only [isLine_append]
  exact ⟨⟨⟨⟨by decide, isLine_prefixed _⟩, by decide⟩, isLine_prefixed _⟩, by decide⟩

theorem isLine_lines {info : BootInfo} (h : info.PlainlyNamed) : ∀ line ∈ lines info, IsLine line := by
  intro line hline
  simp only [lines, List.mem_append, List.mem_map] at hline
  rcases hline with ((hline | ⟨r, -, rfl⟩) | hline) | hline
  · have hall : ∀ line ∈ ["/dts-v1/;", ""], '\n' ∉ line.toList := by decide
    exact hall line hline
  · exact isLine_ofReservation r
  · split at hline
    · cases hline
    · rw [List.mem_singleton.1 hline]
      exact List.not_mem_nil
  · exact isLine_nodeLines h line hline

/-- Text is told apart into lines. -/
theorem join_lines_inj {xs ys : List String} (hxs : ∀ x ∈ xs, IsLine x) (hys : ∀ y ∈ ys, IsLine y)
    (h : String.join (xs.map (· ++ "\n")) = String.join (ys.map (· ++ "\n"))) : xs = ys := by
  have hfront (x : String) (xs : List String) : (String.join ((x :: xs).map (· ++ "\n"))).toList =
      x.toList ++ '\n' :: (String.join (xs.map (· ++ "\n"))).toList := by
    rw [List.map_cons, String.join_cons, String.toList_append, String.toList_append, List.append_assoc]
    rfl
  have hlist := congrArg String.toList h
  clear h
  induction xs generalizing ys with
  | nil =>
    cases ys with
    | nil => rfl
    | cons y ys =>
      rw [hfront] at hlist
      exact absurd hlist.symm (List.append_ne_nil_of_right_ne_nil _ (List.cons_ne_nil _ _))
  | cons x xs ih =>
    cases ys with
    | nil =>
      rw [hfront] at hlist
      exact absurd hlist (List.append_ne_nil_of_right_ne_nil _ (List.cons_ne_nil _ _))
    | cons y ys =>
      obtain ⟨hx, hmore⟩ := List.forall_mem_cons.1 hxs
      obtain ⟨hy, hmore'⟩ := List.forall_mem_cons.1 hys
      rw [hfront, hfront] at hlist
      obtain ⟨hfirst, hrest⟩ := append_sep_inj hx hy hlist
      rw [String.toList_inj.1 hfirst, ih hmore hmore' hrest]

theorem lines_eq_of_toSource {a b : BootInfo} (ha : a.PlainlyNamed) (hb : b.PlainlyNamed)
    (h : a.toSource = b.toSource) : lines a = lines b :=
  join_lines_inj (isLine_lines ha) (isLine_lines hb) h

/-! ## The whole text -/

/-- Behind the reservations there is no other one. -/
theorem afterReservations_head_ne (info : BootInfo) (r : Reservation) :
    ((if info.reservations = [] then [] else [""]) ++ nodeLines info.root 0).head? ≠ some (ofReservation r) := by
  intro h
  split at h
  · rw [nodeLines_eq] at h
    exact opening_ne_ofReservation _ r (Option.some.inj h)
  · exact blank_ne_ofReservation r (Option.some.inj h)

theorem lines_inj {a b : BootInfo} (ha : a.PlainlyNamed) (hb : b.PlainlyNamed) (hquoted : ¬a.Quoted)
    (hquoted' : ¬b.Quoted) (h : lines a = lines b) :
    a.reservations = b.reservations ∧ a.root.withoutPaths = b.root.withoutPaths := by
  simp only [lines, List.append_assoc] at h
  obtain ⟨hreservations, hmore⟩ := map_append_inj (fun r _ r' _ => ofReservation_inj)
    (fun r _ => afterReservations_head_ne a r) (fun r _ => afterReservations_head_ne b r) (List.append_cancel_left h)
  rw [hreservations] at hmore
  have hnodes := congrArg (· ++ []) (List.append_cancel_left hmore)
  exact ⟨hreservations, (nodeLines_append_inj (fun k hk => ⟨ha k hk, fun hq => hquoted ⟨k, hk, hq⟩⟩)
    (fun k hk => ⟨hb k hk, fun hq => hquoted' ⟨k, hk, hq⟩⟩) hnodes).1⟩

end SourceText

/-- Boot information with plain names that is shown alike has the same reservations and the same tree, names, labels,
values and order included, or a quotation mark hides where a text ends. Which form a value is shown in never makes two
values look alike. -/
theorem BootInfo.same_or_quoted_of_toSource :
    (∀ a b : BootInfo, a.PlainlyNamed → b.PlainlyNamed → a.toSource = b.toSource →
      (a.reservations = b.reservations ∧ a.root.withoutPaths = b.root.withoutPaths) ∨ a.Quoted ∨ b.Quoted) ∧
    ∀ p q : Property, 0x22 ∉ p.value → 0x22 ∉ q.value → ofForm p.form = ofForm q.form → p.value = q.value := by
  refine ⟨fun a b ha hb h => ?_, fun p q hp hq => value_eq_of_ofForm hp hq⟩
  by_cases hquoted : a.Quoted
  · exact .inr (.inl hquoted)
  by_cases hquoted' : b.Quoted
  · exact .inr (.inr hquoted')
  exact .inl (lines_inj ha hb hquoted hquoted' (lines_eq_of_toSource ha hb h))

/-- Recorded paths are not shown, and two texts look like one that has the marks between them in it. -/
theorem BootInfo.same_or_quoted_of_toSource_twoTexts :
    (∃ a b : BootInfo, a.toSource = b.toSource ∧ a ≠ b ∧ a.root.withoutPaths = b.root.withoutPaths) ∧
      (∃ a b : BootInfo, a.toSource = b.toSource ∧ a.root.withoutPaths ≠ b.root.withoutPaths ∧
        (a.Quoted ∨ b.Quoted)) ∧
      ∃ p q : Property, p ≠ q ∧ ofForm p.form = " = <0x61620063>" ∧ ofForm q.form = " = <0x61620063>" ∧
        p.value = q.value := by
  obtain ⟨hinfos, hvalues⟩ := same_or_quoted_of_toSource
  refine ⟨?_, ?_, ?_⟩
  · let tree (path : String) : BootInfo :=
      { root := { name := "", path := "/", children := [{ name := "cpu@0", path, label := some "cpu0" }] } }
    have hshown : (tree "/cpu@0").toSource = (tree "/soc/cpu@0").toSource := by decide +kernel
    refine ⟨tree "/cpu@0", tree "/soc/cpu@0", hshown, by decide, ?_⟩
    rcases hinfos _ _ (by decide) (by decide) hshown with ⟨-, h⟩ | h | h
    · exact h
    · exact absurd h (by decide)
    · exact absurd h (by decide)
  · let tree (value : Bytes) : BootInfo :=
      { root := { name := "", path := "/", properties := [{ name := "compatible", value }] } }
    let two : Bytes := [0x61, 0, 0x62, 0]
    let one : Bytes := [0x61, 0x22, 0x2C, 0x20, 0x22, 0x62, 0]
    have hshown : (tree two).toSource = (tree one).toSource := by decide +kernel
    have hdiffer : (tree two).root.withoutPaths ≠ (tree one).root.withoutPaths := by decide
    refine ⟨tree two, tree one, hshown, hdiffer, ?_⟩
    exact (hinfos _ _ (by decide) (by decide) hshown).resolve_left fun h => hdiffer h.2
  · let cell (name : String) : Property := { name, value := [0x61, 0x62, 0, 0x63] }
    have hshown : ofForm (cell "reg").form = ofForm (cell "phandle").form := by decide +kernel
    exact ⟨cell "reg", cell "phandle", by decide, by decide +kernel, by decide +kernel,
      hvalues _ _ (by decide) (by decide) hshown⟩

end DeviceTree
