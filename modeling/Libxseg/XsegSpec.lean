import Mathlib.Data.List.Basic
import Mathlib.Tactic.IntervalCases

/-!
# Segment specs: xseg_parse_spec of xseg.c

A spec is text in memory, `type:name:dynports:nr_ports:heap:page_shift` with a NUL at
its end. The parser goes over it once, writes a NUL over each colon it comes to and uses
what is in front of it as a string in place; a field that is not there has a default.
-/

namespace Libxseg

set_option autoImplicit false

def XSEG_TNAMESIZE : Nat := 32
def XSEG_NAMESIZE : Nat := 256

def COLON : UInt8 := 58

def ascii (chars : List Char) : List UInt8 := chars.map fun c => c.toNat.toUInt8

/-- A `char *`: into the spec or to a literal. -/
inductive CharPtr where
  | spec (p : Nat)
  | literal (bytes : List UInt8)
  deriving DecidableEq, Repr

/-- What is in memory up to the next NUL. -/
def cstring (bytes : List UInt8) : List UInt8 := bytes.takeWhile (· ≠ 0)

def CharPtr.string (segspec : List UInt8) : CharPtr → List UInt8
  | .spec p => cstring (segspec.drop p)
  | .literal bytes => bytes

def tokLoop (segspec : List UInt8) (s : CharPtr) (dflt : List UInt8) :
    List UInt8 → Nat → CharPtr × List UInt8 × Nat
  | [], sp => (.literal dflt, segspec, sp)
  | c :: rest, sp =>
    if c = 0 then (.literal dflt, segspec, sp)
    else if c = COLON then (s, segspec.set sp 0, sp + 1)
    else tokLoop segspec s dflt rest (sp + 1)

def TOK (segspec : List UInt8) (sp : Nat) (dflt : List UInt8) : CharPtr × List UInt8 × Nat :=
  tokLoop segspec (.spec sp) dflt (segspec.drop sp) sp

def strulLoop (n : UInt64) : List UInt8 → UInt64
  | [] => n
  | s :: rest =>
    let c := s - 48
    if 10 ≤ c then n else strulLoop (n * 10 + c.toUInt64) rest

def strul (s : List UInt8) : UInt64 := strulLoop 0 s

/-- `strncpy` into an array of `n` bytes. -/
def strncpy (s : List UInt8) (n : Nat) : List UInt8 :=
  s.take n ++ List.replicate (n - s.length) 0

structure XsegConfig where
  heap_size : UInt64
  nr_ports : UInt32
  dynports : UInt32
  page_shift : UInt32
  type : List UInt8
  name : List UInt8
  deriving DecidableEq, Repr

/-- The result, the memory of the spec and the configuration, which may be a null pointer. -/
def xsegParseSpec (segspec : List UInt8) : Option XsegConfig →
    Int × List UInt8 × Option XsegConfig
  | none => (-1, segspec, none)
  | some _ =>
    let (s, segspec, sp) := TOK segspec 0 (ascii ['p', 'o', 's', 'i', 'x'])
    let type := (strncpy (s.string segspec) XSEG_TNAMESIZE).set (XSEG_TNAMESIZE - 1) 0
    let (s, segspec, sp) :=
      TOK segspec sp (ascii ['g', 'l', 'o', 'b', 'a', 'l', 'x', 's', 'e', 'g'])
    let name := (strncpy (s.string segspec) XSEG_NAMESIZE).set (XSEG_NAMESIZE - 1) 0
    let (s, segspec, sp) := TOK segspec sp (ascii ['6', '4'])
    let dynports := (strul (s.string segspec)).toUInt32
    let (s, segspec, sp) := TOK segspec sp (ascii ['1', '2', '8'])
    let nr_ports := (strul (s.string segspec)).toUInt32
    let (s, segspec, sp) := TOK segspec sp (ascii ['2', '5', '6'])
    let heap_size := strul (s.string segspec) * 1024 * 1024
    let (s, segspec, _) := TOK segspec sp (ascii ['1', '2'])
    let page_shift := (strul (s.string segspec)).toUInt32
    (0, segspec, some ⟨heap_size, nr_ports, dynports, page_shift, type, name⟩)

def decimal (n : Nat) : List UInt8 := ascii (Nat.toDigits 10 n)

theorem digit_byte {c : Char} (hc : c.isDigit = true) :
    (c.toNat.toUInt8 - 48).toNat = c.toNat - 48 ∧ c.toNat - 48 < 10 ∧ 48 ≤ c.toNat := by
  obtain ⟨hlow, hhigh⟩ : 48 ≤ c.toNat ∧ c.toNat ≤ 57 := Char.isDigit_iff_toNat.mp hc
  have hbyte : c.toNat.toUInt8.toNat = c.toNat := by
    rw [Nat.toUInt8_eq, UInt8.toNat_ofNat']
    omega
  have hle : (48 : UInt8) ≤ c.toNat.toUInt8 := by
    rw [UInt8.le_iff_toNat_le, hbyte]
    exact hlow
  rw [UInt8.toNat_sub_of_le _ _ hle, hbyte]
  refine ⟨rfl, ?_, hlow⟩
  omega

theorem le_ofDigitChars (cs : List Char) (n : Nat) : n ≤ Nat.ofDigitChars 10 cs n := by
  rw [Nat.ofDigitChars_eq_ofDigitChars_zero]
  have hpow : 0 < 10 ^ cs.length := Nat.pow_pos (by decide)
  have hmul := Nat.le_mul_of_pos_left n hpow
  omega

/-- The loop reads a number in decimal, as long as it does not overflow. -/
theorem strulLoop_ascii {cs : List Char} (hcs : ∀ c ∈ cs, c.isDigit = true) {n : UInt64}
    (hlt : Nat.ofDigitChars 10 cs n.toNat < 2 ^ 64) :
    (strulLoop n (ascii cs)).toNat = Nat.ofDigitChars 10 cs n.toNat := by
  induction cs generalizing n with
  | nil => rw [Nat.ofDigitChars_nil]; rfl
  | cons c cs ih =>
    obtain ⟨hbyte, hdigit, -⟩ := digit_byte (hcs c (List.mem_cons_self ..))
    rw [Nat.ofDigitChars_cons] at hlt ⊢
    have hfit := le_ofDigitChars cs (10 * n.toNat + (c.toNat - '0'.toNat))
    have hnext : (n * 10 + (c.toNat.toUInt8 - 48).toUInt64).toNat =
        10 * n.toNat + (c.toNat - '0'.toNat) := by
      have hzero : '0'.toNat = 48 := rfl
      have hten : (10 : UInt64).toNat = 10 := rfl
      rw [hzero] at hlt hfit ⊢
      rw [UInt64.toNat_add, UInt64.toNat_mul, UInt8.toNat_toUInt64, hbyte, hten]
      omega
    have hstep : strulLoop n (ascii (c :: cs)) =
        strulLoop (n * 10 + (c.toNat.toUInt8 - 48).toUInt64) (ascii cs) := by
      apply if_neg
      rw [UInt8.le_iff_toNat_le, hbyte]
      exact Nat.not_le_of_lt hdigit
    rw [hstep, ← hnext]
    apply ih (fun c hc => hcs c (List.mem_cons_of_mem _ hc))
    rw [hnext]
    exact hlt

theorem strul_decimal {n : Nat} (hn : n < 2 ^ 64) : (strul (decimal n)).toNat = n := by
  unfold strul decimal
  rw [strulLoop_ascii]
  · exact Nat.ofDigitChars_ten_toDigits
  · exact fun c hc => Nat.isDigit_of_mem_toDigits (by decide) (by decide) hc
  · rw [UInt64.toNat_zero, Nat.ofDigitChars_ten_toDigits]
    exact hn

def Clean (f : List UInt8) : Prop := ∀ c ∈ f, c ≠ 0 ∧ c ≠ COLON

instance (f : List UInt8) : Decidable (Clean f) := List.decidableBAll _ f

def AtFields (segspec : List UInt8) (sp : Nat) (fs : List (List UInt8)) : Prop :=
  segspec.drop sp = List.intercalate [COLON] fs ++ [0]

theorem intercalate_cons_cons (f g : List UInt8) (fs : List (List UInt8)) :
    List.intercalate [COLON] (f :: g :: fs) ++ [0] =
      f ++ COLON :: (List.intercalate [COLON] (g :: fs) ++ [0]) := by
  simp [List.intercalate]

section Tok
variable {segspec dflt f g : List UInt8} {fs : List (List UInt8)} {s : CharPtr} {sp : Nat}

theorem tokLoop_clean (hf : Clean f) (rest : List UInt8) :
    tokLoop segspec s dflt (f ++ rest) sp = tokLoop segspec s dflt rest (sp + f.length) := by
  induction f generalizing sp with
  | nil => rfl
  | cons c f ih =>
    obtain ⟨hnul, hcolon⟩ := hf c (List.mem_cons_self ..)
    rw [List.cons_append, tokLoop, if_neg hnul, if_neg hcolon,
      ih fun d hd => hf d (List.mem_cons_of_mem _ hd), List.length_cons]
    rw [Nat.add_assoc sp 1, Nat.add_comm 1]

theorem tokLoop_colon (hf : Clean f) (rest : List UInt8) :
    tokLoop segspec s dflt (f ++ COLON :: rest) sp =
      (s, segspec.set (sp + f.length) 0, sp + f.length + 1) := by
  rw [tokLoop_clean hf]
  rfl

theorem tokLoop_nul (hf : Clean f) :
    tokLoop segspec s dflt (f ++ [0]) sp = (.literal dflt, segspec, sp + f.length) := by
  rw [tokLoop_clean hf]
  rfl

theorem cstring_clean (hf : Clean f) (rest : List UInt8) : cstring (f ++ 0 :: rest) = f := by
  unfold cstring
  rw [List.takeWhile_append_of_pos]
  · simp
  · intro c hc
    exact decide_eq_true (hf c hc).1

theorem tok_colon (hf : Clean f) (h : AtFields segspec sp (f :: g :: fs)) :
    (TOK segspec sp dflt).1.string (TOK segspec sp dflt).2.1 = f ∧
      AtFields (TOK segspec sp dflt).2.1 (TOK segspec sp dflt).2.2 (g :: fs) := by
  unfold AtFields at h
  rw [intercalate_cons_cons] at h
  have htok : TOK segspec sp dflt =
      (.spec sp, segspec.set (sp + f.length) 0, sp + f.length + 1) := by
    unfold TOK
    rw [h, tokLoop_colon hf]
  rw [htok]
  constructor
  · have hset : (segspec.set (sp + f.length) 0).drop sp =
        f ++ 0 :: (List.intercalate [COLON] (g :: fs) ++ [0]) := by
      rw [← List.set_drop, h, List.set_append_right _ _ (le_refl _), Nat.sub_self]
      rfl
    exact (congrArg cstring hset).trans (cstring_clean hf _)
  · have hset : (segspec.set (sp + f.length) 0).drop (sp + f.length + 1) =
        (segspec.drop sp).drop (f.length + 1) := by
      rw [List.drop_set_of_lt (Nat.lt_add_one _), List.drop_drop, Nat.add_assoc]
    unfold AtFields
    rw [hset, h, ← List.drop_drop, List.drop_left]
    rfl

/-- The last field is read as the default, and so is one that is not there. -/
theorem tok_nul (hf : Clean f) (h : segspec.drop sp = f ++ [0]) :
    (TOK segspec sp dflt).1.string (TOK segspec sp dflt).2.1 = dflt ∧
      AtFields (TOK segspec sp dflt).2.1 (TOK segspec sp dflt).2.2 [] := by
  have htok : TOK segspec sp dflt = (.literal dflt, segspec, sp + f.length) := by
    unfold TOK
    rw [h, tokLoop_nul hf]
  rw [htok]
  refine ⟨rfl, ?_⟩
  unfold AtFields
  rw [← List.drop_drop, h, List.drop_left]
  rfl

end Tok

def nextField (dflt : List UInt8) : List (List UInt8) → List UInt8 × List (List UInt8)
  | f :: g :: fs => (f, g :: fs)
  | _ => (dflt, [])

theorem tok_nextField {segspec : List UInt8} {fs : List (List UInt8)} {sp : Nat}
    (dflt : List UInt8) (hfs : ∀ f ∈ fs, Clean f) (h : AtFields segspec sp fs) :
    (TOK segspec sp dflt).1.string (TOK segspec sp dflt).2.1 = (nextField dflt fs).1 ∧
      AtFields (TOK segspec sp dflt).2.1 (TOK segspec sp dflt).2.2 (nextField dflt fs).2 ∧
      ∀ f ∈ (nextField dflt fs).2, Clean f := by
  match fs, h with
  | [], h =>
    obtain ⟨hstring, hnext⟩ := tok_nul (f := []) (fun _ hc => absurd hc List.not_mem_nil) h
    exact ⟨hstring, hnext, fun _ hf => absurd hf List.not_mem_nil⟩
  | [f], h =>
    have hlast : segspec.drop sp = f ++ [0] := by simpa [AtFields, List.intercalate] using h
    obtain ⟨hstring, hnext⟩ := tok_nul (hfs f (List.mem_cons_self ..)) hlast
    exact ⟨hstring, hnext, fun _ hf => absurd hf List.not_mem_nil⟩
  | f :: g :: fs, h =>
    obtain ⟨hstring, hnext⟩ := tok_colon (hfs f (List.mem_cons_self ..)) h
    exact ⟨hstring, hnext, fun e he => hfs e (List.mem_cons_of_mem _ he)⟩

def readFields : List (List UInt8) → List (List UInt8) → List (List UInt8)
  | [], _ => []
  | dflt :: ds, fs => (nextField dflt fs).1 :: readFields ds (nextField dflt fs).2

theorem readFields_nil (ds : List (List UInt8)) : readFields ds [] = ds := by
  induction ds with
  | nil => rfl
  | cons dflt ds ih => exact congrArg (dflt :: ·) ih

/-- All fields that are given but the last, and defaults from there on. -/
theorem readFields_eq (ds fs : List (List UInt8)) (hlen : fs.length ≤ ds.length) :
    readFields ds fs = fs.take (fs.length - 1) ++ ds.drop (fs.length - 1) := by
  induction ds generalizing fs with
  | nil =>
    obtain rfl := List.length_eq_zero_iff.mp (Nat.le_zero.mp hlen)
    rfl
  | cons dflt ds ih =>
    match fs, hlen with
    | [], _ => exact readFields_nil _
    | [f], _ => exact congrArg (dflt :: ·) (readFields_nil ds)
    | f :: g :: fs, hlen => exact congrArg (f :: ·) (ih (g :: fs) (Nat.le_of_succ_le_succ hlen))

def tokStrings : List (List UInt8) → List UInt8 → Nat → List (List UInt8) × List UInt8
  | [], segspec, _ => ([], segspec)
  | dflt :: ds, segspec, sp =>
    let (s, segspec, sp) := TOK segspec sp dflt
    let (strings, after) := tokStrings ds segspec sp
    (s.string segspec :: strings, after)

theorem tokStrings_eq {segspec : List UInt8} {sp : Nat} {fs : List (List UInt8)}
    (ds : List (List UInt8)) (hfs : ∀ f ∈ fs, Clean f) (h : AtFields segspec sp fs) :
    (tokStrings ds segspec sp).1 = readFields ds fs := by
  induction ds generalizing segspec sp fs with
  | nil => rfl
  | cons dflt ds ih =>
    obtain ⟨hstring, hnext, hclean⟩ := tok_nextField dflt hfs h
    exact congrArg₂ List.cons hstring (ih hclean hnext)

theorem decimal_clean (n : Nat) : Clean (decimal n) := by
  intro b hb
  obtain ⟨c, hc, rfl⟩ := List.mem_map.mp hb
  obtain ⟨hbyte, hdigit, hlow⟩ :=
    digit_byte (Nat.isDigit_of_mem_toDigits (by decide) (by decide) hc)
  constructor
  · intro hzero
    rw [hzero] at hbyte
    have hwrap : ((0 : UInt8) - 48).toNat = 208 := rfl
    omega
  · intro hcolon
    rw [hcolon] at hbyte
    have hten : (COLON - 48).toNat = 10 := rfl
    omega

theorem cstring_strncpy {f : List UInt8} {n : Nat} (hf : Clean f) (hlen : f.length < n) :
    cstring ((strncpy f n).set (n - 1) 0) = f := by
  have harray : (strncpy f n).set (n - 1) 0 = f ++ 0 :: List.replicate (n - f.length - 1) 0 := by
    have hpad : n - f.length = n - f.length - 1 + 1 := by omega
    unfold strncpy
    rw [List.take_of_length_le (Nat.le_of_lt hlen), List.set_append_right _ _ (by omega)]
    rw [List.set_replicate_self, hpad, List.replicate_succ]
    rfl
  rw [harray]
  exact cstring_clean hf _

theorem strul_toUInt32 (n : UInt32) : (strul (decimal n.toNat)).toUInt32 = n := by
  have hlt := n.toNat_lt
  rw [← UInt32.toNat_inj, UInt64.toNat_toUInt32, strul_decimal (by omega)]
  omega

theorem strul_heap {n : Nat} (hn : n < 2 ^ 44) :
    (strul (decimal n) * 1024 * 1024).toNat = n * 2 ^ 20 := by
  have hkilo : (1024 : UInt64).toNat = 1024 := rfl
  rw [UInt64.toNat_mul, UInt64.toNat_mul, strul_decimal (by omega), hkilo]
  omega

@[ext]
structure SegmentSpec where
  type : List UInt8
  name : List UInt8
  dynports : UInt32
  nr_ports : UInt32
  heap_MB : Nat
  page_shift : UInt32
  type_clean : Clean type
  type_length : type.length < XSEG_TNAMESIZE
  name_clean : Clean name
  name_length : name.length < XSEG_NAMESIZE
  heap_size : heap_MB < 2 ^ 44

namespace SegmentSpec

def fields (s : SegmentSpec) : List (List UInt8) :=
  [s.type, s.name, decimal s.dynports.toNat, decimal s.nr_ports.toNat, decimal s.heap_MB,
    decimal s.page_shift.toNat]

def written (s : SegmentSpec) (k : Nat) : List UInt8 :=
  List.intercalate [COLON] (s.fields.take k) ++ [0]

def default : SegmentSpec where
  type := ascii ['p', 'o', 's', 'i', 'x']
  name := ascii ['g', 'l', 'o', 'b', 'a', 'l', 'x', 's', 'e', 'g']
  dynports := 64
  nr_ports := 128
  heap_MB := 256
  page_shift := 12
  type_clean := by decide
  type_length := by decide
  name_clean := by decide
  name_length := by decide
  heap_size := by decide

def keep (s d : SegmentSpec) (k : Nat) : SegmentSpec where
  type := if 1 ≤ k then s.type else d.type
  name := if 2 ≤ k then s.name else d.name
  dynports := if 3 ≤ k then s.dynports else d.dynports
  nr_ports := if 4 ≤ k then s.nr_ports else d.nr_ports
  heap_MB := if 5 ≤ k then s.heap_MB else d.heap_MB
  page_shift := if 6 ≤ k then s.page_shift else d.page_shift
  type_clean := by split; exacts [s.type_clean, d.type_clean]
  type_length := by split; exacts [s.type_length, d.type_length]
  name_clean := by split; exacts [s.name_clean, d.name_clean]
  name_length := by split; exacts [s.name_length, d.name_length]
  heap_size := by split; exacts [s.heap_size, d.heap_size]

structure Describes (config : XsegConfig) (s : SegmentSpec) : Prop where
  type : cstring config.type = s.type
  name : cstring config.name = s.name
  dynports : config.dynports = s.dynports
  nr_ports : config.nr_ports = s.nr_ports
  heap_size : config.heap_size.toNat = s.heap_MB * 2 ^ 20
  page_shift : config.page_shift = s.page_shift

def RoundTrips (s : SegmentSpec) (k : Nat) : Prop :=
  ∀ config, ∃ segspec config', xsegParseSpec (s.written k) (some config) =
    (0, segspec, some config') ∧ Describes config' (s.keep default k)

def LastIsDefault (s : SegmentSpec) : Nat → Prop
  | 1 => s.type = default.type
  | 2 => s.name = default.name
  | 3 => s.dynports = default.dynports
  | 4 => s.nr_ports = default.nr_ports
  | 5 => s.heap_MB = default.heap_MB
  | 6 => s.page_shift = default.page_shift
  | _ => False

theorem Describes.unique {config : XsegConfig} {s t : SegmentSpec} (hs : Describes config s)
    (ht : Describes config t) : s = t := by
  ext1
  · exact hs.type.symm.trans ht.type
  · exact hs.name.symm.trans ht.name
  · exact hs.dynports.symm.trans ht.dynports
  · exact hs.nr_ports.symm.trans ht.nr_ports
  · have hsize := hs.heap_size.symm.trans ht.heap_size
    omega
  · exact hs.page_shift.symm.trans ht.page_shift

theorem fields_clean (s : SegmentSpec) (f : List UInt8) (hf : f ∈ s.fields) : Clean f := by
  simp only [fields, List.mem_cons, List.not_mem_nil, or_false] at hf
  rcases hf with rfl | rfl | rfl | rfl | rfl | rfl
  · exact s.type_clean
  · exact s.name_clean
  all_goals exact decimal_clean _

theorem keep_fields (s d : SegmentSpec) {k : Nat} (hk : k ≤ 6) :
    (s.keep d k).fields = s.fields.take k ++ d.fields.drop k := by
  interval_cases k <;> rfl

def config (type name dynports nr_ports heap page_shift : List UInt8) : XsegConfig where
  heap_size := strul heap * 1024 * 1024
  nr_ports := (strul nr_ports).toUInt32
  dynports := (strul dynports).toUInt32
  page_shift := (strul page_shift).toUInt32
  type := (strncpy type XSEG_TNAMESIZE).set (XSEG_TNAMESIZE - 1) 0
  name := (strncpy name XSEG_NAMESIZE).set (XSEG_NAMESIZE - 1) 0

theorem describes_config (s : SegmentSpec) :
    Describes (config s.type s.name (decimal s.dynports.toNat) (decimal s.nr_ports.toNat)
      (decimal s.heap_MB) (decimal s.page_shift.toNat)) s where
  type := cstring_strncpy s.type_clean s.type_length
  name := cstring_strncpy s.name_clean s.name_length
  dynports := strul_toUInt32 _
  nr_ports := strul_toUInt32 _
  heap_size := strul_heap s.heap_size
  page_shift := strul_toUInt32 _

theorem default_fields : default.fields =
    [ascii ['p', 'o', 's', 'i', 'x'],
      ascii ['g', 'l', 'o', 'b', 'a', 'l', 'x', 's', 'e', 'g'], ascii ['6', '4'],
      ascii ['1', '2', '8'], ascii ['2', '5', '6'], ascii ['1', '2']] := by decide

theorem xsegParseSpec_some (segspec : List UInt8) (before : XsegConfig) :
    ∃ type name dynports nr_ports heap page_shift,
      (tokStrings default.fields segspec 0).1 = [type, name, dynports, nr_ports, heap, page_shift] ∧
      xsegParseSpec segspec (some before) =
        (0, (tokStrings default.fields segspec 0).2,
          some (config type name dynports nr_ports heap page_shift)) := by
  rw [default_fields]
  simp only [tokStrings, xsegParseSpec]
  rcases TOK segspec 0 (ascii ['p', 'o', 's', 'i', 'x']) with ⟨s₁, m₁, p₁⟩
  dsimp only
  rcases TOK m₁ p₁ (ascii ['g', 'l', 'o', 'b', 'a', 'l', 'x', 's', 'e', 'g']) with ⟨s₂, m₂, p₂⟩
  dsimp only
  rcases TOK m₂ p₂ (ascii ['6', '4']) with ⟨s₃, m₃, p₃⟩
  dsimp only
  rcases TOK m₃ p₃ (ascii ['1', '2', '8']) with ⟨s₄, m₄, p₄⟩
  dsimp only
  rcases TOK m₄ p₄ (ascii ['2', '5', '6']) with ⟨s₅, m₅, p₅⟩
  dsimp only
  rcases TOK m₅ p₅ (ascii ['1', '2']) with ⟨s₆, m₆, p₆⟩
  exact ⟨_, _, _, _, _, _, rfl, rfl⟩

/-- The last field that is given is not among those that are kept. -/
theorem parse_written (s : SegmentSpec) {k : Nat} (hk : k ≤ 6) (before : XsegConfig) :
    ∃ segspec config', xsegParseSpec (s.written k) (some before) = (0, segspec, some config') ∧
      Describes config' (s.keep default (k - 1)) := by
  obtain ⟨type, name, dynports, nr_ports, heap, page_shift, hstrings, hparse⟩ :=
    xsegParseSpec_some (s.written k) before
  have hlen : (s.fields.take k).length = k := List.length_take_of_le hk
  have hclean (f : List UInt8) (hf : f ∈ s.fields.take k) : Clean f :=
    s.fields_clean f (List.mem_of_mem_take hf)
  have hat : AtFields (s.written k) 0 (s.fields.take k) := List.drop_zero
  have hread := tokStrings_eq default.fields hclean hat
  have hshort : (s.fields.take k).length ≤ default.fields.length := hlen.trans_le hk
  have hpred : k - 1 ≤ k := Nat.sub_le k 1
  rw [readFields_eq _ _ hshort, hlen, List.take_take, Nat.min_eq_left hpred,
    ← keep_fields _ _ (hpred.trans hk)] at hread
  have hfields := hstrings.symm.trans hread
  simp only [fields, List.cons.injEq, and_true] at hfields
  obtain ⟨rfl, rfl, rfl, rfl, rfl, rfl⟩ := hfields
  exact ⟨_, _, hparse, describes_config _⟩

/-- A spec comes back exactly if its last field could as well have been left out. -/
theorem roundTrips_iff (s : SegmentSpec) {k : Nat} (hpos : 1 ≤ k) (hk : k ≤ 6) :
    s.RoundTrips k ↔ s.LastIsDefault k := by
  have hiff : s.RoundTrips k ↔ s.keep default k = s.keep default (k - 1) := by
    constructor
    · intro hround
      obtain ⟨m, c, hparse, hdescribes⟩ := hround ⟨0, 0, 0, 0, [], []⟩
      obtain ⟨m', c', hparse', hdescribes'⟩ := s.parse_written hk ⟨0, 0, 0, 0, [], []⟩
      rw [hparse'] at hparse
      simp only [Prod.mk.injEq, Option.some.injEq] at hparse
      obtain ⟨-, -, rfl⟩ := hparse
      exact hdescribes.unique hdescribes'
    · intro hkeep before
      rw [hkeep]
      exact s.parse_written hk before
  rw [hiff]
  interval_cases k <;> simp [keep, LastIsDefault]

def segdevSpec : SegmentSpec :=
  { default with
    type := ascii ['s', 'e', 'g', 'd', 'e', 'v']
    name := ascii ['d', 'i', 's', 'k']
    type_clean := by decide
    type_length := by decide
    name_clean := by decide
    name_length := by decide }

theorem segdevSpec_roundTrips_three : segdevSpec.RoundTrips 3 :=
  (roundTrips_iff segdevSpec (by decide) (by decide)).mpr rfl

/-- The number of dynamic ports in `posix:seg:32` is lost. -/
theorem not_roundTrips : ¬ ∀ (s : SegmentSpec) (k : Nat), 1 ≤ k → k ≤ 6 → s.RoundTrips k := by
  intro hall
  let s : SegmentSpec :=
    { default with
      name := ascii ['s', 'e', 'g']
      dynports := 32
      name_clean := by decide
      name_length := by decide }
  obtain ⟨m, c, hparse, hdescribes⟩ :=
    hall s 3 (by decide) (by decide) ⟨0, 0, 0, 0, [], []⟩
  have hdynports : (xsegParseSpec (s.written 3) (some ⟨0, 0, 0, 0, [], []⟩)).2.2.map
      XsegConfig.dynports = some 64 := by decide
  rw [hparse] at hdynports
  have hlost : (64 : UInt32) = 32 := (Option.some.inj hdynports).symm.trans hdescribes.dynports
  exact absurd hlost (by decide)

end SegmentSpec

end Libxseg
