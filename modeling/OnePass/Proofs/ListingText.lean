import OnePass.Proofs.Legible
import OnePass.Proofs.Lexical.Shortest

/-!
# Texts of listings

A listing is a text of lines, without lengths or terminators: the openings of bodies, locals, marks
and instructions are told apart by how they begin. A reader for such texts is given, and every
legible listing is read from its text (`Listing.read?_text`). Hence the text determines the listing:
main theorem `listing_eq_of_text_eq`.
-/

namespace OnePass

/-- The digits of a number are letters and digits. -/
theorem plain_toDigits {b : Nat} (base : 1 < b) (small : b ≤ 16) (n : Nat) :
    ∀ c ∈ Nat.toDigits b n, isPlain c = true := by
  have digits : ∀ d < 16, isPlain d.digitChar = true := by decide
  induction n using Nat.strongRecOn with
  | ind n ih =>
    rw [Nat.toDigits_eq_if base]
    split_ifs with below
    · exact List.forall_mem_singleton.2 (digits n (by omega))
    · have last := digits (n % b) ((Nat.mod_lt n (by omega)).trans_le small)
      have front := ih (n / b) (Nat.div_lt_self (by omega) base)
      exact List.forall_mem_append.2 ⟨front, List.forall_mem_singleton.2 last⟩

/-! ## Texts between quotes -/

namespace Quoted

def hexValue (c : Char) : Nat :=
  if c.isDigit then c.toNat - '0'.toNat else c.toNat - 'a'.toNat + 10

/-- The number that hexadecimal digits are written for, behind digits with a given value. -/
def hexFrom (n : Nat) (ds : List Char) : Nat := ds.foldl (fun n d => 16 * n + hexValue d) n

/-- Reads characters up to the closing quote, which ends the text. In a code point, the value of the
digits before is given. -/
def read? (quote : Char) : Option Nat → List Char → Option (List Char)
  | _, [] => none
  | some n, c :: cs =>
    if c = '}' then (read? quote none cs).map (Char.ofNat n :: ·)
    else read? quote (some (16 * n + hexValue c)) cs
  | none, c :: cs =>
    if c = quote then some []
    else if c = '\\' then
      match cs with
      | [] => none
      | e :: cs =>
        if e = 'u' then
          match cs with
          | [] => none
          | _ :: cs => read? quote (some 0) cs
        else (Lexeme.unescape? e).bind fun c => (read? quote none cs).map (c :: ·)
    else (read? quote none cs).map (c :: ·)

theorem hexValue_digitChar : ∀ d < 16, hexValue d.digitChar = d := by decide

/-- Hexadecimal digits are read back as their number. -/
theorem hexFrom_toDigits (n : Nat) : hexFrom 0 (Nat.toDigits 16 n) = n := by
  induction n using Nat.strongRecOn with
  | ind n ih =>
    rw [Nat.toDigits_eq_if (by decide)]
    split_ifs with small
    · simp [hexFrom, hexValue_digitChar n small]
    · have before := ih (n / 16) (by omega)
      unfold hexFrom at before ⊢
      rw [List.foldl_append, before, List.foldl_cons, List.foldl_nil,
        hexValue_digitChar (n % 16) (Nat.mod_lt n (by decide))]
      omega

/-- An escape is read digit by digit up to its closing brace. -/
theorem read?_digits (quote : Char) {ds : List Char} (plain : ∀ c ∈ ds, isPlain c = true) (n : Nat)
    (rest : List Char) : read? quote (some n) (ds ++ '}' :: rest) =
      (read? quote none rest).map (Char.ofNat (hexFrom n ds) :: ·) := by
  induction ds generalizing n with
  | nil => simp [read?, hexFrom]
  | cons d ds ih =>
    obtain ⟨first, further⟩ := List.forall_mem_cons.1 plain
    have inside : d ≠ '}' := by
      rintro rfl
      exact absurd first (by decide)
    rw [List.cons_append, read?, if_neg inside, ih further]
    rfl

/-- One character is read from its escape, whatever the table of hidden characters says. -/
theorem read?_escape {quote : Char} (isQuote : Lexical.IsQuote quote) (c : Char)
    (rest : List Char) :
    read? quote none (escape quote c ++ rest) = (read? quote none rest).map (c :: ·) := by
  have backslash : '\\' ≠ quote := by
    rcases isQuote with rfl | rfl <;> decide
  have short {e c : Char} (known : Lexeme.unescape? e = some c) (noPoint : e ≠ 'u') :
      read? quote none (['\\', e] ++ rest) = (read? quote none rest).map (c :: ·) := by
    rw [read?.eq_def]
    simp [backslash, known, noPoint]
  unfold escape
  split_ifs with zero tab ret feed slash closes
  · exact short (by rw [zero]; rfl) (by decide)
  · exact short (by rw [tab]; rfl) (by decide)
  · exact short (by rw [ret]; rfl) (by decide)
  · exact short (by rw [feed]; rfl) (by decide)
  · exact short (by rw [slash]; rfl) (by decide)
  · subst closes
    rcases isQuote with rfl | rfl
    · exact short rfl (by decide)
    · exact short rfl (by decide)
  · have digits := read?_digits quote (plain_toDigits (by decide) (le_refl 16) c.toNat) 0 rest
    rw [hexFrom_toDigits, Char.ofNat_toNat] at digits
    simpa [codePoint, read?, backslash] using digits
  · rw [read?.eq_def]
    simp [closes, slash]

/-- **Quoted text is read back**: every character stands for itself or is escaped. -/
theorem read?_between {quote : Char} (isQuote : Lexical.IsQuote quote) (cs : List Char) :
    read? quote none (between quote cs).tail = some cs := by
  induction cs with
  | nil => simp [between, read?]
  | cons c cs ih =>
    simp only [between, List.cons_append, List.tail_cons, List.flatMap_cons,
      List.append_assoc] at ih ⊢
    rw [read?_escape isQuote, ih]
    rfl

end Quoted

/-! ## Lines -/

/-- What stands before an instruction: all but marks are indented. -/
def Instruction.indent : Instruction → String
  | mark _ => ""
  | _ => "    "

/-- A line of a listing: it opens a body, or shows a local or an instruction. -/
inductive Row where
  | opening (name : String) (signature : Option Signature)
  | reserved (slot : Nat) (name : String) (type : ValueType)
  | code (i : Instruction)
deriving DecidableEq

namespace Row

/-- The text of a line, without the line feed. -/
def text : Row → String
  | opening name (some s) => name ++ "(" ++ s.param.text ++ ") -> " ++ s.ret.text ++ ":"
  | opening name none => name ++ ":"
  | reserved slot name type =>
    "    .local " ++ slotText slot ++ " " ++ name ++ ": " ++ type.text
  | code i => i.indent ++ i.text

section

variable (name : String) (s : Signature) (slot : Nat) (type : ValueType) (i : Instruction)

@[simp] theorem text_function : (opening name (some s)).text =
    name ++ "(" ++ s.param.text ++ ") -> " ++ s.ret.text ++ ":" :=
  rfl

@[simp] theorem text_entry : (opening name none).text = name ++ ":" := rfl

@[simp] theorem text_reserved : (reserved slot name type).text =
    "    .local " ++ slotText slot ++ " " ++ name ++ ": " ++ type.text :=
  rfl

@[simp] theorem text_code : (code i).text = i.indent ++ i.text := rfl

end

/-- What is in a line is legible. -/
def Legible : Row → Prop
  | opening name signature => Plain name ∧ (signature = none → name = entryName) ∧
    ∀ s ∈ signature, s.param.isPrimitive = true ∧ s.ret.isPrimitive = true
  | reserved _ name type => Plain name ∧ type.isPrimitive = true
  | code i => i.Legible

end Row

def Body.rows (b : Body) : List Row :=
  .opening b.name b.signature ::
    (b.locals.toList.mapIdx fun slot x => .reserved slot x.1 x.2) ++ b.code.toList.map .code

def Listing.rows (l : Listing) : List Row := l.bodies.flatMap Body.rows

/-- The lines of a body are the texts of its rows. -/
theorem Body.lines_eq_map_rows (b : Body) : b.lines = b.rows.map fun r => r.text ++ "\n" := by
  have opening : b.header = (Row.opening b.name b.signature).text ++ "\n" := by
    unfold Body.header
    cases b.signature <;> simp [String.append_assoc]
  have code : Instruction.line = fun i => (Row.code i).text ++ "\n" := by
    funext i
    cases i <;> simp [Instruction.line, Instruction.indent]
  have reserved : b.locals.toList.mapIdx (fun slot x => Body.localLine slot x.1 x.2) =
      (b.locals.toList.mapIdx fun slot x => Row.reserved slot x.1 x.2).map
        fun r => r.text ++ "\n" := by
    refine List.ext_getElem (by simp) ?_
    intro slot _ _
    simp only [List.getElem_map, List.getElem_mapIdx]
    rfl
  simp [Body.lines, Body.rows, opening, code, reserved, Function.comp_def]

/-- The text of a listing ends every row with a line feed. -/
theorem Listing.toList_text (l : Listing) :
    l.text.toList = l.rows.flatMap fun r => r.text.toList ++ ['\n'] := by
  simp [Listing.text, Listing.rows, Body.lines_eq_map_rows, String.toList_join,
    List.flatMap_assoc, List.flatMap_map]

/-- A legible body has legible rows. -/
theorem Body.Legible.rows {b : Body} (h : b.Legible) : ∀ r ∈ b.rows, r.Legible := by
  unfold Body.rows
  simp only [List.cons_append, List.forall_mem_cons, List.forall_mem_append, List.forall_mem_map]
  refine ⟨⟨h.name, h.entry, h.signature⟩, ?_, h.code⟩
  intro r mem
  obtain ⟨slot, within, rfl⟩ := List.mem_mapIdx.1 mem
  exact h.locals _ (List.getElem_mem within)

/-! ## No line has a line feed -/

theorem Plain.noFeed {text : String} (h : Plain text) : '\n' ∉ text.toList := by
  intro mem
  exact absurd (h _ mem) (by decide)

theorem ValueType.plain_text {type : ValueType} (h : type.isPrimitive = true) :
    Plain type.text := by
  cases type with
  | named name => cases h
  | _ => decide

theorem noFeed_toDigits {b : Nat} (base : 1 < b) (small : b ≤ 16) (n : Nat) :
    '\n' ∉ Nat.toDigits b n := by
  intro mem
  exact absurd (plain_toDigits base small n _ mem) (by decide)

/-- An integer is printed with its sign and its digits. -/
theorem toList_repr (z : Int) :
    z.repr.toList = (if z < 0 then ['-'] else []) ++ Nat.toDigits 10 z.natAbs := by
  cases z with
  | ofNat n => simp [Int.repr]
  | negSucc n => simp [Int.repr, Int.negSucc_lt_zero]

namespace Double

theorem noFeed_positional {ds : List Char} (h : '\n' ∉ ds) (lead : Int) :
    '\n' ∉ positional ds lead := by
  have front (n : Nat) : '\n' ∉ ds.take n := fun mem => h (List.mem_of_mem_take mem)
  have back (n : Nat) : '\n' ∉ ds.drop n := fun mem => h (List.mem_of_mem_drop mem)
  unfold positional
  dsimp only
  split_ifs
  · simp [zeros, h]
  · simp [zeros, front]
  · simp [zeros, front, back]

theorem noFeed_scientific {ds : List Char} (h : '\n' ∉ ds) (lead : Int) :
    '\n' ∉ scientific ds lead := by
  have front (n : Nat) : '\n' ∉ ds.take n := fun mem => h (List.mem_of_mem_take mem)
  have back : '\n' ∉ ds.tail := fun mem => h (List.mem_of_mem_tail mem)
  have digits := noFeed_toDigits (b := 10) (by decide) (by decide) lead.natAbs
  unfold scientific
  dsimp only
  split_ifs <;> simp [front, back, digits]

/-- No number is printed with a line feed. -/
theorem noFeed_text (x : Double) : '\n' ∉ x.text.toList := by
  have decimal : '\n' ∉ x.shortest.text := by
    obtain ⟨n, split⟩ := exists_append_zeros (Nat.toDigits 10 x.shortest.digits)
    have digits : '\n' ∉ dropZeros (Nat.toDigits 10 x.shortest.digits) := by
      intro mem
      have inside : '\n' ∈ Nat.toDigits 10 x.shortest.digits := by
        rw [split]
        exact List.mem_append_left _ mem
      exact noFeed_toDigits (by decide) (by decide) _ inside
    unfold Decimal.text
    dsimp only
    split_ifs
    · exact noFeed_positional digits _
    · exact noFeed_scientific digits _
  unfold text
  split_ifs <;> simp [decimal]

end Double

/-- Line feeds inside quotes are escaped. -/
theorem Quoted.noFeed_between {quote : Char} (isQuote : Lexical.IsQuote quote) (cs : List Char) :
    '\n' ∉ between quote cs := by
  have mark : '\n' ≠ quote := by
    rcases isQuote with rfl | rfl <;> decide
  have one (c : Char) : '\n' ∉ escape quote c := by
    unfold escape
    split_ifs with zero tab ret feed
    · decide
    · decide
    · decide
    · decide
    · decide
    · simp [mark]
    · simp [codePoint, noFeed_toDigits]
    · simp [Ne.symm feed]
  simp [between, mark, one]

/-- A legible instruction takes one line. -/
theorem Instruction.noFeed_text {i : Instruction} (h : i.Legible) : '\n' ∉ i.text.toList := by
  have digits := noFeed_toDigits (b := 10) (by decide) (by decide)
  cases i with
  | mark label => simp [text, labelText, digits]
  | jump label => simp [text, labelText, digits]
  | jumpUnless label => simp [text, labelText, digits]
  | ret => decide
  | compare op => cases op <;> decide
  | additive op => cases op <;> decide
  | multiplicative op => cases op <;> decide
  | unary op => cases op <;> decide
  | concat => decide
  | pushInt value =>
    simp only [text, String.toList_append, toList_repr]
    split_ifs <;> simp [digits]
  | pushDouble value => simp [text, Double.noFeed_text]
  | pushBool value => cases value <;> decide
  | pushChar value => simp [text, Quoted.char, Quoted.noFeed_between (.inr rfl)]
  | pushString value => simp [text, Quoted.string, Quoted.noFeed_between (.inl rfl)]
  | load slot => simp [text, slotText, digits]
  | store slot => simp [text, slotText, digits]
  | pop => decide
  | call link => simpa [text] using Plain.noFeed h

theorem Row.noFeed_text {r : Row} (h : r.Legible) : '\n' ∉ r.text.toList := by
  cases r with
  | opening name signature =>
    obtain ⟨plain, -, primitive⟩ := h
    cases signature with
    | none => simpa using plain.noFeed
    | some s =>
      obtain ⟨param, ret⟩ := primitive s rfl
      simp [plain.noFeed, (ValueType.plain_text param).noFeed,
        (ValueType.plain_text ret).noFeed]
  | reserved slot name type =>
    simp [slotText, noFeed_toDigits, h.1.noFeed, (ValueType.plain_text h.2).noFeed]
  | code i =>
    have indent : '\n' ∉ i.indent.toList := by cases i <;> simp [Instruction.indent]
    simp [indent, Instruction.noFeed_text h]

/-! ## Reading a line -/

def readInt : List Char → Int
  | '-' :: cs => -(digitsValue cs : Int)
  | cs => digitsValue cs

def ValueType.read? (cs : List Char) : Option ValueType :=
  (ValueType.primitives.find? fun p => p.1.toList = cs).map (·.2)

def Instruction.bare : List Instruction :=
  [.ret, .concat, .pop] ++ Comparison.all.map .compare ++ Additive.all.map .additive ++
    Multiplicative.all.map .multiplicative ++ Unary.all.map .unary

/-- Reads an instruction from its mnemonic and its operand. -/
def Instruction.read? (mnemonic : String) (operand : List Char) : Option Instruction :=
  match mnemonic with
  | "br" => some (.jump (digitsValue operand.tail))
  | "brfalse" => some (.jumpUnless (digitsValue operand.tail))
  | "ldc.i4" => some (.pushInt (.ofInt (readInt operand)))
  | "ldc.r8" => (Double.read? (.ofList operand)).map .pushDouble
  | "ldc.bool" => some (.pushBool (operand = "true".toList))
  | "ldc.char" => (Quoted.read? '\x27' none operand.tail).bind fun cs => cs.head?.map .pushChar
  | "ldstr" => (Quoted.read? '"' none operand.tail).map fun cs => .pushString (.ofList cs)
  | "ldloc" => some (.load (digitsValue operand.tail))
  | "stloc" => some (.store (digitsValue operand.tail))
  | "call" => some (.call (.ofList operand))
  | _ => Instruction.bare.find? (·.text = mnemonic)

namespace Row

/-- Reads the line that opens a function, behind its name and a bracket. -/
def readFunction? (name cs : List Char) : Option Row :=
  let (param, cs) := cs.span isPlain
  (ValueType.read? param).bind fun param =>
    (ValueType.read? ((cs.drop 5).takeWhile isPlain)).map fun ret =>
      .opening (.ofList name) (some ⟨param, ret⟩)

/-- Reads the slot, the name and the type of a local. -/
def readLocal? (cs : List Char) : Option Row :=
  let (slot, cs) := cs.tail.span isPlain
  let (name, cs) := cs.tail.span isPlain
  (ValueType.read? (cs.drop 2)).map (.reserved (digitsValue slot) (.ofList name))

/-- Reads a line that is indented: the word `.local` or a mnemonic, and what stands behind it. -/
def readIndented? (cs : List Char) : Option Row :=
  let (mnemonic, operand) := cs.span (· ≠ ' ')
  if mnemonic = ".local".toList then readLocal? operand.tail
  else (Instruction.read? (.ofList mnemonic) operand.tail).map .code

/-- Reads a line. What stands behind its first word tells openings, marks and indented lines
apart. -/
def read? (cs : List Char) : Option Row :=
  match cs.span isPlain with
  | (name, '(' :: cs) => readFunction? name cs
  | (name, ':' :: _) =>
    if name = entryName.toList then some (.opening entryName none)
    else some (.code (.mark (digitsValue name.tail)))
  | (_, cs) => readIndented? (cs.drop 4)

end Row

/-- A word ends with the first character that is none of its own. -/
theorem span_append {p : Char → Bool} {w rest : List Char} (inside : ∀ c ∈ w, p c = true)
    (ends : ∀ c ∈ rest.head?, p c = false) : (w ++ rest).span p = (w, rest) := by
  rw [List.span_eq_takeWhile_dropWhile, List.takeWhile_append_of_pos inside,
    List.dropWhile_append_of_pos inside]
  cases rest with
  | nil => simp
  | cons c rest => simp [ends c rfl]

theorem readInt_repr (z : Int) : readInt z.repr.toList = z := by
  rw [toList_repr]
  split_ifs with negative
  · rw [List.singleton_append, readInt, Double.digitsValue_toDigits]
    omega
  · rw [List.nil_append, readInt, Double.digitsValue_toDigits]
    · omega
    · intro cs same
      have digit := plain_toDigits (b := 10) (by decide) (by decide) z.natAbs '-' (by simp [same])
      exact absurd digit (by decide)

/-- The name of a type is read back as the type. -/
theorem ValueType.read?_text {type : ValueType} (h : type.isPrimitive = true) :
    read? type.text.toList = some type := by
  cases type with
  | named name => cases h
  | _ => decide

namespace Row

/-- The head of a function is read back. -/
theorem read?_opening {name : String} {signature : Option Signature}
    (h : (opening name signature).Legible) :
    read? (opening name signature).text.toList = some (opening name signature) := by
  obtain ⟨plain, entry, primitive⟩ := h
  cases signature with
  | none =>
    rw [entry rfl]
    decide
  | some s =>
    obtain ⟨param, ret⟩ := primitive s rfl
    have shown : (opening name (some s)).text.toList = name.toList ++ '(' ::
        (s.param.text.toList ++ (") -> ".toList ++ (s.ret.text.toList ++ [':']))) := by
      simp
    have first : isPlain '(' = false := by decide
    have second : isPlain ')' = false := by decide
    have third : isPlain ':' = false := by decide
    -- each word is ended by a character that no word holds
    rw [shown, read?, span_append plain (by simp [first])]
    simp only
    rw [readFunction?, span_append (ValueType.plain_text param) (by simp [second])]
    simp only
    rw [show ∀ cs : List Char, (") -> ".toList ++ cs).drop 5 = cs from fun _ => rfl,
      List.takeWhile_append_of_pos (ValueType.plain_text ret)]
    simp [third, ValueType.read?_text param, ValueType.read?_text ret]

/-- What is indented is no head of a function. -/
theorem read?_indented (cs : List Char) : read? ("    ".toList ++ cs) = readIndented? cs := by
  simp [read?, List.span_eq_takeWhile_dropWhile, show isPlain ' ' = false from by decide]

/-- The line of an instruction with an operand, which stands behind the mnemonic and a blank. -/
theorem read?_operand {start : String} (mnemonic operand : String)
    (split : start = mnemonic ++ " ") (word : mnemonic.toList.all (· ≠ ' ') = true)
    (other : mnemonic ≠ ".local") :
    read? ("    " ++ (start ++ operand)).toList =
      (Instruction.read? mnemonic operand.toList).map code := by
  have apart : mnemonic.toList ≠ ".local".toList := fun same => other (String.toList_inj.1 same)
  have shown : ("    " ++ (start ++ operand)).toList =
      "    ".toList ++ (mnemonic.toList ++ ' ' :: operand.toList) := by
    simp [split]
  rw [shown, read?_indented, readIndented?, span_append (List.all_eq_true.1 word) (by simp)]
  simp only
  rw [if_neg apart, String.ofList_toList, List.tail_cons]

/-- The line of a local variable is read back. -/
theorem read?_reserved {slot : Nat} {name : String} {type : ValueType}
    (h : (reserved slot name type).Legible) :
    read? (reserved slot name type).text.toList = some (reserved slot name type) := by
  obtain ⟨plain, primitive⟩ := h
  have shown : (reserved slot name type).text.toList = "    ".toList ++ (".local".toList ++ ' ' ::
      ('%' :: (Nat.toDigits 10 slot ++ ' ' :: (name.toList ++ ':' :: ' ' ::
        type.text.toList)))) := by
    simp [slotText]
  have first : isPlain ' ' = false := by decide
  have second : isPlain ':' = false := by decide
  rw [shown, read?_indented, readIndented?,
    span_append (List.all_eq_true.1 (by decide)) (by simp)]
  simp only [if_true, List.tail_cons]
  rw [readLocal?, List.tail_cons, span_append (plain_toDigits (by decide) (by decide) slot)
    (by simp [first])]
  simp only [List.tail_cons]
  rw [span_append plain (by simp [second])]
  simp [ValueType.read?_text primitive, Double.digitsValue_toDigits]

theorem read?_mark (label : Nat) :
    read? (code (.mark label)).text.toList = some (code (.mark label)) := by
  have shown : (code (.mark label)).text.toList = 'L' :: Nat.toDigits 10 label ++ [':'] := by
    simp [Instruction.indent, Instruction.text, labelText]
  have letter : isPlain 'L' = true := by decide
  have ends : isPlain ':' = false := by decide
  -- the only opening without a signature is that of the entry, and it is no label
  have other : 'L' :: Nat.toDigits 10 label ≠ entryName.toList := by
    simp [entryName]
  have plain : ∀ c ∈ 'L' :: Nat.toDigits 10 label, isPlain c = true :=
    List.forall_mem_cons.2 ⟨letter, plain_toDigits (by decide) (by decide) label⟩
  rw [shown, read?, span_append plain (by simp [ends])]
  simp only
  rw [if_neg other, List.tail_cons, Double.digitsValue_toDigits]

theorem read?_bare : ∀ i ∈ Instruction.bare, read? (code i).text.toList = some (code i) := by
  decide +kernel

/-- The line of an instruction is read back. Marks are not indented; all others are told apart by
their mnemonics. -/
theorem read?_code {i : Instruction} (h : i.Legible) :
    read? (code i).text.toList = some (code i) := by
  cases i with
  | mark label => exact read?_mark label
  | ret => exact read?_bare _ (by decide)
  | concat => exact read?_bare _ (by decide)
  | pop => exact read?_bare _ (by decide)
  | compare op => exact read?_bare _ (by cases op <;> decide)
  | additive op => exact read?_bare _ (by cases op <;> decide)
  | multiplicative op => exact read?_bare _ (by cases op <;> decide)
  | unary op => exact read?_bare _ (by cases op <;> decide)
  | jump label =>
    refine (read?_operand "br" (labelText label) (by decide) (by decide) (by decide)).trans ?_
    simp [Instruction.read?, labelText, Double.digitsValue_toDigits]
  | jumpUnless label =>
    refine (read?_operand "brfalse" (labelText label) (by decide) (by decide) (by decide)).trans ?_
    simp [Instruction.read?, labelText, Double.digitsValue_toDigits]
  | pushInt value =>
    refine (read?_operand "ldc.i4" value.toInt.repr (by decide) (by decide) (by decide)).trans ?_
    simp [Instruction.read?, readInt_repr]
  | pushDouble value =>
    refine (read?_operand "ldc.r8" value.text (by decide) (by decide) (by decide)).trans ?_
    simp [Instruction.read?, Double.read?_text h]
  | pushBool value =>
    cases value <;> decide +kernel
  | pushChar value =>
    refine (read?_operand "ldc.char" (Quoted.char value) (by decide) (by decide)
      (by decide)).trans ?_
    simp [Instruction.read?, Quoted.char, Quoted.read?_between (.inr rfl)]
  | pushString value =>
    refine (read?_operand "ldstr" (Quoted.string value) (by decide) (by decide)
      (by decide)).trans ?_
    simp [Instruction.read?, Quoted.string, Quoted.read?_between (.inl rfl)]
  | load slot =>
    refine (read?_operand "ldloc" (slotText slot) (by decide) (by decide) (by decide)).trans ?_
    simp [Instruction.read?, slotText, Double.digitsValue_toDigits]
  | store slot =>
    refine (read?_operand "stloc" (slotText slot) (by decide) (by decide) (by decide)).trans ?_
    simp [Instruction.read?, slotText, Double.digitsValue_toDigits]
  | call link =>
    refine (read?_operand "call" link (by decide) (by decide) (by decide)).trans ?_
    simp [Instruction.read?]

/-- A legible line is read from its text. -/
theorem read?_text {r : Row} (h : r.Legible) : read? r.text.toList = some r := by
  cases r with
  | opening name signature => exact read?_opening h
  | reserved slot name type => exact read?_reserved h
  | code i => exact read?_code h

end Row

/-! ## Reading a listing -/

/-- What lines show: the locals and the instructions before the first opening, and the bodies. -/
def gather : List Row → Piece
  | [] => {}
  | .opening name signature :: rows =>
    { functions := (gather rows).body name signature :: (gather rows).functions }
  | .reserved _ name type :: rows =>
    { gather rows with locals := (name, type) :: (gather rows).locals }
  | .code i :: rows => { gather rows with code := i :: (gather rows).code }

def Listing.read? (text : String) : Option Listing :=
  ((text.toList.splitOn '\n').dropLast.mapM Row.read?).map fun rows => ⟨(gather rows).functions⟩

/-- Instructions belong to the body above them. -/
theorem gather_code (is : List Instruction) (rows : List Row) :
    gather (is.map .code ++ rows) = { gather rows with code := is ++ (gather rows).code } := by
  induction is with
  | nil => rfl
  | cons i is ih => rw [List.map_cons, List.cons_append, gather, ih, List.cons_append]

/-- So do local variables, whatever their slots. -/
theorem gather_locals (xs : List (String × ValueType)) (slots : Nat → Nat) (rows : List Row) :
    gather ((xs.mapIdx fun slot x => .reserved (slots slot) x.1 x.2) ++ rows) =
      { gather rows with locals := xs ++ (gather rows).locals } := by
  induction xs generalizing slots with
  | nil => rfl
  | cons x xs ih =>
    rw [List.mapIdx_cons, List.cons_append, gather, ih fun slot => slots (slot + 1),
      List.cons_append]

/-- The lines of a body show this body. -/
theorem gather_rows (b : Body) {rows : List Row} {bodies : List Body}
    (rest : gather rows = { functions := bodies }) :
    gather (b.rows ++ rows) = { functions := b :: bodies } := by
  have inside : gather ((b.locals.toList.mapIdx fun slot x => .reserved slot x.1 x.2) ++
      (b.code.toList.map .code ++ rows)) = ⟨b.locals.toList, b.code.toList, bodies⟩ := by
    refine (gather_locals _ id _).trans ?_
    rw [gather_code, rest]
    simp
  rw [Body.rows, List.cons_append, List.cons_append, List.append_assoc, gather, inside]
  simp [Piece.body]

theorem gather_flatMap_rows (bodies : List Body) :
    gather (bodies.flatMap Body.rows) = { functions := bodies } := by
  induction bodies with
  | nil => rfl
  | cons b bodies ih => exact gather_rows b ih

/-- Lines without line feeds are separated by them. -/
theorem splitOn_lines {lines : List (List Char)} (h : ∀ line ∈ lines, '\n' ∉ line) :
    (lines.flatMap fun line => line ++ ['\n']).splitOn '\n' = lines ++ [[]] := by
  induction lines with
  | nil => rfl
  | cons line lines ih =>
    obtain ⟨first, further⟩ := List.forall_mem_cons.1 h
    rw [List.flatMap_cons, List.append_assoc, List.singleton_append,
      List.splitOn_append_cons_self_of_not_mem first, ih further, List.cons_append]

theorem mapM_read? {rows : List Row} (h : ∀ r ∈ rows, r.Legible) :
    (rows.map fun r => r.text.toList).mapM Row.read? = some rows := by
  induction rows with
  | nil => rfl
  | cons r rows ih =>
    obtain ⟨first, further⟩ := List.forall_mem_cons.1 h
    rw [List.map_cons, List.mapM_cons, Row.read?_text first, ih further]
    rfl

/-- A legible listing is read from its text. -/
theorem Listing.read?_text {l : Listing} (h : ∀ b ∈ l.bodies, b.Legible) :
    Listing.read? l.text = some l := by
  have legible : ∀ r ∈ l.rows, r.Legible := by
    intro r mem
    obtain ⟨b, inside, mem⟩ := List.mem_flatMap.1 mem
    exact (h b inside).rows r mem
  -- no line holds a line feed, so the text is cut where the lines end, with nothing behind the last
  have lines : l.text.toList.splitOn '\n' = (l.rows.map fun r => r.text.toList) ++ [[]] := by
    rw [Listing.toList_text, ← splitOn_lines, List.flatMap_map]
    exact List.forall_mem_map.2 fun r mem => Row.noFeed_text (legible r mem)
  rw [Listing.read?, lines, List.dropLast_concat, mapM_read? legible, Option.map_some,
    Listing.rows, gather_flatMap_rows]

/-- **The text of a listing determines it.** If the listings of two source texts that are compiled
without a host have the same text, then they are the same: their bodies, with names, signatures,
locals and instructions, are equal. -/
theorem listing_eq_of_text_eq {source source' : String} {structural structural' : Severity}
    {c c' : Compilation} (compiled : compile source structural = .ok c)
    (compiled' : compile source' structural' = .ok c')
    (same : c.listing.text = c'.listing.text) : c.listing = c'.listing := by
  have read := Listing.read?_text (legible_of_compile compiled)
  rw [same, Listing.read?_text (legible_of_compile compiled')] at read
  exact (Option.some.inj read).symm

/-- The text of the listing of a source text that is accepted. -/
def acceptedText? (source : String) (structural : Severity) : Option String :=
  match compile source structural with
  | .ok ⟨true, listing, _⟩ => some listing.text
  | _ => none

theorem exists_of_acceptedText? {source text : String} {structural : Severity}
    (h : acceptedText? source structural = some text) :
    ∃ c, compile source structural = .ok c ∧ c.accepted = true ∧ c.listing.text = text := by
  unfold acceptedText? at h
  split at h
  · rename_i listing diagnostics compiled
    exact ⟨⟨true, listing, diagnostics⟩, compiled, rfl, Option.some.inj h⟩
  · cases h

/-- A block with a variable, a function that has the name of a label and whose parameter has the
name of the entry, and a call. -/
def halfSource : String :=
  "\x7b string s; double L0(int main) \x7b while (main) return 0.5; \x7d s = \"\\n\"; L0(2); \x7d"

/-- The same block on several lines, with another spelling of the fraction, and broken off before
its last semicolon. -/
def looseHalfSource : String :=
  "\x7b string s;\n  double L0 (int main) \x7b\n    while (main) return 0.50;\n  \x7d // a half\n" ++
    "  s = \"\\n\"; L0(2)"

/-- The listing of both: the entry with its variable, and the function with its labels. -/
def halfText : String :=
  String.join (["main:", "    .local %0 s: string", "    ldstr \"\\n\"", "    stloc %0", "    pop",
    "    ldc.i4 2", "    call L0", "    pop", "L0(int) -> double:", "    .local %0 main: int", "L0:",
    "    ldloc %0", "    brfalse L1", "    ldc.r8 0.5", "    ret", "    br L0", "L1:"].map (· ++ "\n"))

theorem listing_eq_of_text_eq_halfSource :
    ∃ c c', compile halfSource .error = .ok c ∧ compile looseHalfSource .warning = .ok c' ∧
      c.accepted = true ∧ c'.accepted = true ∧ c.listing.text = halfText ∧
      c'.listing.text = halfText ∧ c.listing = c'.listing := by
  have strict : acceptedText? halfSource .error = some halfText := by decide +kernel
  have loose : acceptedText? looseHalfSource .warning = some halfText := by decide +kernel
  obtain ⟨c, compiled, accepted, text⟩ := exists_of_acceptedText? strict
  obtain ⟨c', compiled', accepted', text'⟩ := exists_of_acceptedText? loose
  exact ⟨c, c', compiled, compiled', accepted, accepted', text, text',
    listing_eq_of_text_eq compiled compiled' (text.trans text'.symm)⟩

end OnePass
