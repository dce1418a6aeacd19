import SolanaQos.SaveScores
/-!
# The packet files (`engine/src/lib.rs`, `engine-ipc/src/main.rs`, `packet-analysis/src/main.rs`)

The generators and the mock banking stage write a line for each packet, its price and its source; the analysis reads
the files back into the prices of each source.  A file is its characters here: all that is written is ASCII, so a
character is a byte.  The names of the standard library's functions stand for what its documentation says
(`split_whitespace`, `char::is_whitespace`, `parse::<u64>`, `BufRead::lines`).

Writing.  `writeln!` formats its arguments piece by piece, and each piece is a write of its own (`pricePieces`); that
matters to a buffered writer, and to nobody who reads the line.

Reading.  The results are the entries of the files' lines, file by file (`ipValues_eq`), and the values under an ip are
those of its entries, in their order (`valuesUnder`).  A line counts if it has exactly two fields and the first is a
number.

A writer may not have handed on the end of its file.  Then the file breaks off somewhere in a line, and:
* before the address begins, that line has no entry;
* within the address, the line has its price under the beginning of the address (`fileEntries_cut`);
* behind it, with only the line feed missing, the line counts.

The beginning of an address could be another one's text, as 1.1.1.1 is of 1.1.1.12.  Where that cannot happen (`Sole`),
a file that lacks its end reads for every source as the lines that it reaches (`fileEntries_prefix`).  An address of
seven characters has no shorter one in front (`sole_of_length`).
-/
namespace Qos

/-! ## The text of a line -/

/-- What `Display` of `Ipv4Addr` writes, piece by piece. -/
def Ipv4Addr.pieces (a : Ipv4Addr) : List (List Char) :=
  (a.octets.toList.map fun octet => Nat.toDigits 10 octet.toNat).intersperse ['.']

def ipv6Segments (octets : Vector UInt8 16) : List Nat :=
  (List.range 8).map fun i => (octets.toList.getD (2 * i) 0).toNat * 256 + (octets.toList.getD (2 * i + 1) 0).toNat

/-- The first of the longest runs of zero segments, as its start and length. -/
def longestZeroes (segments : List Nat) : Nat × Nat :=
  (segments.zipIdx.foldl (fun (acc : (Nat × Nat) × (Nat × Nat)) (segment, i) =>
    if segment = 0 then
      let current := if acc.2.2 = 0 then (i, 1) else (acc.2.1, acc.2.2 + 1)
      (if acc.1.2 < current.2 then current else acc.1, current)
    else (acc.1, (0, 0))) ((0, 0), (0, 0))).1

def ipv6Pieces (octets : Vector UInt8 16) : List (List Char) :=
  let hex := fun segments : List Nat => (segments.map fun segment => Nat.toDigits 16 segment).intersperse [':']
  let segments := ipv6Segments octets
  if segments.take 6 = [0, 0, 0, 0, 0, 0xffff] then
    "::ffff:".toList :: Ipv4Addr.pieces ⟨Vector.ofFn fun i : Fin 4 => octets.get ⟨12 + i.val, by omega⟩⟩
  else
    let (start, len) := longestZeroes segments
    if 1 < len then hex (segments.take start) ++ ["::".toList] ++ hex (segments.drop (start + len)) else hex segments

def IpAddr.pieces : IpAddr → List (List Char)
  | .v4 addr => addr.pieces
  | .v6 octets => ipv6Pieces octets

/-- The pieces of `writeln!(file, "{} {}", price, addr)`. -/
def pricePieces (price : UInt64) (addr : IpAddr) : List (List Char) :=
  [Nat.toDigits 10 price.toNat, [' ']] ++ addr.pieces ++ [['\n']]

def linesOf (records : List (UInt64 × Ipv4Addr)) : List Char :=
  records.flatMap fun r => (pricePieces r.1 (.v4 r.2)).flatten

/-! ## Reading a file back -/

def isWhitespace (c : Char) : Bool :=
  let n := c.toNat
  (0x9 ≤ n && n ≤ 0xd) || n == 0x20 || n == 0x85 || n == 0xa0 || n == 0x1680 || (0x2000 ≤ n && n ≤ 0x200a) ||
    n == 0x2028 || n == 0x2029 || n == 0x202f || n == 0x205f || n == 0x3000

def splitWhitespace (text : List Char) : List (List Char) :=
  (text.splitOnP isWhitespace).filter fun part => !part.isEmpty

def parseU64 (text : List Char) : Option UInt64 :=
  let digits :=
    match text with
    | '+' :: rest => rest
    | _ => text
  if digits ≠ [] ∧ digits.all Char.isDigit = true ∧ Nat.ofDigitChars 10 digits 0 < 2 ^ 64 then
    some (UInt64.ofNat (Nat.ofDigitChars 10 digits 0))
  else none

def stripReturn (line : List Char) : List Char := if line.getLast? = some '\r' then line.dropLast else line

/-- `BufRead::lines`: a carriage return before a line feed goes with it, and a last line without one stays as it is. -/
def fileLines (content : List Char) : List (List Char) :=
  let parts := content.splitOn '\n'
  parts.dropLast.map stripReturn ++ parts.getLast?.toList.filter fun line => !line.isEmpty

/-- The two fields of a line, if it has exactly two and the first is a number. -/
def ipLineValue (line : List Char) : Option (List Char × UInt64) :=
  match splitWhitespace line with
  | [number, ip] => (parseU64 number).map fun number => (ip, number)
  | _ => none

/-- `results.entry(ip).or_insert_with(..).push(number)`. -/
def pushValue (results : List Char → Option (List UInt64)) (entry : List Char × UInt64) :
    List Char → Option (List UInt64) :=
  Function.update results entry.1 (some ((results entry.1).getD [] ++ [entry.2]))

/-- `ip_values`, a file that cannot be opened being `none`. -/
def ipValues (files : List (Option (List Char))) : List Char → Option (List UInt64) :=
  files.foldl (fun results file =>
    match file with
    | some content => (fileLines content).foldl (fun results line =>
        match ipLineValue line with
        | some entry => pushValue results entry
        | none => results) results
    | none => results) fun _ => none

/-! ## What a written line reads as -/

theorem isWhitespace_of_isDigit {c : Char} (h : c.isDigit = true) : isWhitespace c = false := by
  have hc : 48 ≤ c.toNat ∧ c.toNat ≤ 57 := by
    simp only [Char.isDigit, Bool.and_eq_true, decide_eq_true_eq, ge_iff_le, UInt32.le_iff_toNat_le] at h
    exact h
  simp only [isWhitespace]
  have h0 : ∀ k, 57 < k → (c.toNat == k) = false := fun k hk => by simp; omega
  rw [h0 0x85 (by decide), h0 0xa0 (by decide), h0 0x1680 (by decide), h0 0x2028 (by decide), h0 0x2029 (by decide),
    h0 0x202f (by decide), h0 0x205f (by decide), h0 0x3000 (by decide)]
  simp
  omega

theorem display_chars {a : Ipv4Addr} {c : Char} (h : c ∈ a.display.toList) : c = '.' ∨ c.isDigit = true := by
  rw [Ipv4Addr.toList_display] at h
  rcases Ipv4Addr.mem_intercalate h with h | ⟨text, htext, h⟩
  · exact Or.inl h
  · obtain ⟨octet, -, rfl⟩ := List.mem_map.1 htext
    exact Or.inr (Nat.isDigit_of_mem_toDigits (by decide) (by decide) h)

theorem display_not_whitespace {a : Ipv4Addr} {c : Char} (h : c ∈ a.display.toList) : isWhitespace c = false := by
  rcases display_chars h with rfl | h
  · decide
  · exact isWhitespace_of_isDigit h

theorem display_ne_empty (a : Ipv4Addr) : a.display ≠ "" := by
  intro h
  have hlen := congrArg (fun text : String => (text.toList.splitOn '.').length) h
  simp only [Ipv4Addr.toList_display] at hlen
  rw [List.splitOn_intercalate '.' ?_ ?_] at hlen
  · simp at hlen
  · intro text htext
    obtain ⟨octet, -, rfl⟩ := List.mem_map.1 htext
    exact Ipv4Addr.notMem_toDigits rfl _
  · rw [Ne, List.map_eq_nil_iff, ← List.length_eq_zero_iff, Vector.length_toList]
    decide

theorem parseU64_toDigits (price : UInt64) : parseU64 (Nat.toDigits 10 price.toNat) = some price := by
  have hdigit : ∀ c ∈ Nat.toDigits 10 price.toNat, c.isDigit = true :=
    fun c hc => Nat.isDigit_of_mem_toDigits (by decide) (by decide) hc
  have hplain : (match Nat.toDigits 10 price.toNat with | '+' :: rest => rest | _ => Nat.toDigits 10 price.toNat) =
      Nat.toDigits 10 price.toNat := by
    split
    · rename_i rest he
      have := hdigit '+' (by rw [he]; simp)
      cases this
    · rfl
  unfold parseU64
  simp only [hplain]
  rw [Nat.ofDigitChars_ten_toDigits, if_pos ⟨Nat.toDigits_ne_nil, List.all_eq_true.2 hdigit, price.toNat_lt⟩,
    UInt64.ofNat_toNat]

theorem toDigits_not_whitespace {n : Nat} {c : Char} (h : c ∈ Nat.toDigits 10 n) : isWhitespace c = false :=
  isWhitespace_of_isDigit (Nat.isDigit_of_mem_toDigits (by decide) (by decide) h)

theorem splitWhitespace_word {word : List Char} (hword : ∀ c ∈ word, isWhitespace c = false) :
    splitWhitespace word = if word = [] then [] else [word] := by
  unfold splitWhitespace
  rw [List.splitOnP_eq_singleton hword]
  cases word <;> rfl

theorem ipLineValue_fields (price : UInt64) {ip : List Char} (hip : ∀ c ∈ ip, isWhitespace c = false) :
    ipLineValue (Nat.toDigits 10 price.toNat ++ ' ' :: ip) = if ip = [] then none else some (ip, price) := by
  have hprice : ∀ c ∈ Nat.toDigits 10 price.toNat, isWhitespace c = false := fun c hc => toDigits_not_whitespace hc
  have hsplit : splitWhitespace (Nat.toDigits 10 price.toNat ++ ' ' :: ip) =
      Nat.toDigits 10 price.toNat :: splitWhitespace ip := by
    unfold splitWhitespace
    rw [List.splitOnP_append_cons_of_forall_mem hprice ' ' (by decide)]
    simp
  unfold ipLineValue
  rw [hsplit, splitWhitespace_word hip]
  by_cases hnil : ip = []
  · rw [if_pos hnil, if_pos hnil]
  · rw [if_neg hnil, if_neg hnil]
    simp [parseU64_toDigits]

theorem ipLineValue_word {word : List Char} (hword : ∀ c ∈ word, isWhitespace c = false) : ipLineValue word = none := by
  unfold ipLineValue
  rw [splitWhitespace_word hword]
  by_cases hnil : word = []
  · rw [if_pos hnil]
  · rw [if_neg hnil]

/-! ## What the files read as -/

def fileEntries : Option (List Char) → List (List Char × UInt64)
  | some content => (fileLines content).filterMap ipLineValue
  | none => []

def valuesUnder (ip : List Char) (entries : List (List Char × UInt64)) : List UInt64 :=
  (entries.filter fun e => e.1 = ip).map Prod.snd

theorem valuesUnder_cons (ip : List Char) (entry : List Char × UInt64) (entries : List (List Char × UInt64)) :
    valuesUnder ip (entry :: entries) =
      if entry.1 = ip then entry.2 :: valuesUnder ip entries else valuesUnder ip entries := by
  unfold valuesUnder
  rw [List.filter_cons]
  split <;> simp_all

theorem valuesUnder_append (ip : List Char) (entries entries' : List (List Char × UInt64)) :
    valuesUnder ip (entries ++ entries') = valuesUnder ip entries ++ valuesUnder ip entries' := by
  simp [valuesUnder]

theorem foldl_pushValue (ip : List Char) : ∀ (entries : List (List Char × UInt64))
    (results : List Char → Option (List UInt64)), entries.foldl pushValue results ip =
      if valuesUnder ip entries = [] then results ip else some ((results ip).getD [] ++ valuesUnder ip entries)
  | [], results => by simp [valuesUnder]
  | entry :: entries, results => by
    rw [List.foldl_cons, foldl_pushValue ip entries, valuesUnder_cons]
    by_cases he : entry.1 = ip
    · subst he
      rw [if_pos rfl, if_neg (List.cons_ne_nil _ _)]
      split
      · rename_i hnil
        simp [pushValue, hnil]
      · simp [pushValue]
    · have hsame : pushValue results entry ip = results ip := Function.update_of_ne (Ne.symm he) _ _
      rw [if_neg he, hsame]

theorem foldl_lines (results : List Char → Option (List UInt64)) (lines : List (List Char)) :
    lines.foldl (fun results line =>
      match ipLineValue line with
      | some entry => pushValue results entry
      | none => results) results = (lines.filterMap ipLineValue).foldl pushValue results := by
  induction lines generalizing results with
  | nil => rfl
  | cons line lines ih =>
    rw [List.foldl_cons, ih]
    cases h : ipLineValue line with
    | none => rw [List.filterMap_cons_none h]
    | some entry => rw [List.filterMap_cons_some h, List.foldl_cons]

theorem ipValues_eq (files : List (Option (List Char))) (ip : List Char) :
    ipValues files ip =
      let values := valuesUnder ip (files.flatMap fileEntries)
      if values = [] then none else some values := by
  have hentries : ∀ results, files.foldl (fun results file =>
      match file with
      | some content => (fileLines content).foldl (fun results line =>
          match ipLineValue line with
          | some entry => pushValue results entry
          | none => results) results
      | none => results) results = (files.flatMap fileEntries).foldl pushValue results := by
    induction files with
    | nil => exact fun results => rfl
    | cons file files ih =>
      intro results
      rw [List.foldl_cons, ih, List.flatMap_cons, List.foldl_append]
      cases file with
      | none => rfl
      | some content =>
        simp only [fileEntries]
        rw [foldl_lines]
  unfold ipValues
  rw [hentries, foldl_pushValue]
  rfl

theorem fileLines_cons (line rest : List Char) (hline : '\n' ∉ line) (hret : line.getLast? ≠ some '\r') :
    fileLines (line ++ '\n' :: rest) = line :: fileLines rest := by
  have hsplit : (line ++ '\n' :: rest).splitOn '\n' = line :: rest.splitOn '\n' := by
    rw [List.splitOn_append_cons_self, List.splitOn_eq_singleton hline]
    rfl
  unfold fileLines
  simp only [hsplit]
  obtain ⟨first, others, hparts⟩ := List.exists_cons_of_ne_nil (List.splitOn_ne_nil '\n' rest)
  rw [hparts, List.getLast?_cons_cons, List.dropLast_cons_of_ne_nil (List.cons_ne_nil _ _), List.map_cons, stripReturn,
    if_neg hret]
  rfl

theorem fileLines_last {line : List Char} (hline : '\n' ∉ line) : fileLines line = if line = [] then [] else [line] := by
  unfold fileLines
  rw [List.splitOn_eq_singleton hline]
  cases line <;> rfl

theorem isDigit_not_end {c : Char} (h : c.isDigit = true) : c ≠ '\n' ∧ c ≠ '\r' := by
  constructor
  · rintro rfl
    cases h
  · rintro rfl
    cases h

def lineText (price : UInt64) (a : Ipv4Addr) : List Char := Nat.toDigits 10 price.toNat ++ ' ' :: a.display.toList

theorem lineText_not_end {price : UInt64} {a : Ipv4Addr} {c : Char} (hc : c ∈ lineText price a) : c ≠ '\n' ∧ c ≠ '\r' := by
  rw [lineText, List.mem_append, List.mem_cons] at hc
  rcases hc with hc | rfl | hc
  · exact isDigit_not_end (Nat.isDigit_of_mem_toDigits (by decide) (by decide) hc)
  · decide
  · rcases display_chars hc with rfl | hd
    · decide
    · exact isDigit_not_end hd

theorem linesOf_cons (price : UInt64) (a : Ipv4Addr) (records : List (UInt64 × Ipv4Addr)) :
    linesOf ((price, a) :: records) = lineText price a ++ ['\n'] ++ linesOf records := by
  have hline : (pricePieces price (.v4 a)).flatten = lineText price a ++ ['\n'] := by
    simp [pricePieces, IpAddr.pieces, Ipv4Addr.pieces, lineText, Ipv4Addr.toList_display, List.intercalate]
  rw [linesOf, List.flatMap_cons, hline]
  rfl

theorem linesOf_append (records records' : List (UInt64 × Ipv4Addr)) :
    linesOf (records ++ records') = linesOf records ++ linesOf records' := List.flatMap_append

theorem fileEntries_cons (price : UInt64) (a : Ipv4Addr) (rest : List Char) :
    fileEntries (some (lineText price a ++ ['\n'] ++ rest)) = (a.display.toList, price) :: fileEntries (some rest) := by
  have hvalue : ipLineValue (lineText price a) = some (a.display.toList, price) :=
    (ipLineValue_fields price fun c hc => display_not_whitespace hc).trans
      (if_neg fun h => display_ne_empty a (String.toList_eq_nil_iff.1 h))
  simp only [fileEntries]
  rw [List.append_assoc, List.singleton_append,
    fileLines_cons _ _ (fun h => (lineText_not_end h).1 rfl) (fun h => (lineText_not_end (List.mem_of_getLast? h)).2 rfl),
    List.filterMap_cons_some hvalue]

/-- **A line that was cut off** has no entry, or its price under the start of the source. -/
theorem fileEntries_cut {price : UInt64} {a : Ipv4Addr} {text : List Char} (htext : text <+: lineText price a) :
    fileEntries (some text) = [] ∨ ∃ ip, ip <+: a.display.toList ∧ fileEntries (some text) = [(ip, price)] := by
  have hlines := fileLines_last fun h => (lineText_not_end (htext.mem h)).1 rfl
  simp only [fileEntries]
  rw [hlines]
  split
  · exact Or.inl rfl
  · have hfield : text <+: Nat.toDigits 10 price.toNat ∨
        ∃ ip, ip <+: a.display.toList ∧ text = Nat.toDigits 10 price.toNat ++ ' ' :: ip := by
      rw [lineText, ← List.singleton_append, ← List.append_assoc] at htext
      rcases List.prefix_or_prefix_of_prefix htext (List.prefix_append _ _) with h | ⟨ip, rfl⟩
      · rcases List.prefix_concat_iff.1 h with h | h
        · exact Or.inr ⟨[], List.nil_prefix, h⟩
        · exact Or.inl h
      · exact Or.inr ⟨ip, (List.prefix_append_right_inj _).1 htext, by simp⟩
    rcases hfield with hfield | ⟨ip, hip, rfl⟩
    · have hnone := ipLineValue_word fun c hc => toDigits_not_whitespace (hfield.mem hc)
      exact Or.inl (by rw [List.filterMap_cons_none hnone, List.filterMap_nil])
    · have hvalue := ipLineValue_fields price fun c hc => display_not_whitespace (hip.mem hc)
      by_cases hnil : ip = []
      · rw [if_pos hnil] at hvalue
        exact Or.inl (by rw [List.filterMap_cons_none hvalue, List.filterMap_nil])
      · rw [if_neg hnil] at hvalue
        exact Or.inr ⟨ip, hip, by rw [List.filterMap_cons_some hvalue, List.filterMap_nil]⟩

def pricesOf (a : Ipv4Addr) (records : List (UInt64 × Ipv4Addr)) : List UInt64 :=
  (records.filter fun r => r.2 = a).map Prod.fst

theorem pricesOf_cons (a : Ipv4Addr) (price : UInt64) (source : Ipv4Addr) (records : List (UInt64 × Ipv4Addr)) :
    pricesOf a ((price, source) :: records) = if source = a then price :: pricesOf a records else pricesOf a records := by
  unfold pricesOf
  rw [List.filter_cons]
  split <;> simp_all

theorem pricesOf_append (a : Ipv4Addr) (records records' : List (UInt64 × Ipv4Addr)) :
    pricesOf a (records ++ records') = pricesOf a records ++ pricesOf a records' := by
  simp [pricesOf]

theorem display_inj {a b : Ipv4Addr} : a.display.toList = b.display.toList ↔ a = b :=
  ⟨fun h => Ipv4Addr.display_injective (String.toList_inj.1 h), fun h => by rw [h]⟩

/-- No other source's text starts the text of this one. -/
def Sole (source : Ipv4Addr) : Prop := ∀ a : Ipv4Addr, a.display.toList <+: source.display.toList → source = a

theorem seven_le_display (a : Ipv4Addr) : 7 ≤ a.display.toList.length := by
  have hdigits : ∀ octet : UInt8, 1 ≤ (Nat.toDigits 10 octet.toNat).length :=
    fun octet => List.length_pos_iff.2 Nat.toDigits_ne_nil
  have hfour : a.octets.toList.length = 4 := Vector.length_toList
  rw [Ipv4Addr.toList_display]
  match a.octets.toList, hfour with
  | [x, y, z, w], _ =>
    have hx := hdigits x
    have hy := hdigits y
    have hz := hdigits z
    have hw := hdigits w
    simp only [List.map_cons, List.map_nil, List.intercalate, List.intersperse, List.flatten_cons, List.flatten_nil,
      List.length_append, List.length_cons, List.length_nil]
    omega

theorem sole_of_length {source : Ipv4Addr} (h : source.display.toList.length = 7) : Sole source :=
  fun a ha => (display_inj.1 (ha.eq_of_length_le (h ▸ seven_le_display a))).symm

/-- **A file that lacks its end** reads as the lines that it reaches, for every source: the line where it breaks off has its
price under its source or under a text that is no source. -/
theorem fileEntries_prefix : ∀ (records : List (UInt64 × Ipv4Addr)) (content : List Char), content <+: linesOf records →
    (∀ r ∈ records, Sole r.2) → ∃ k ≤ records.length,
      (k < records.length → content.length < (linesOf (records.take (k + 1))).length) ∧
      ∀ a : Ipv4Addr, valuesUnder a.display.toList (fileEntries (some content)) = pricesOf a (records.take k)
  | [], content, hfront, _ => by
    obtain rfl := List.prefix_nil.1 hfront
    exact ⟨0, le_refl _, nofun, fun a => rfl⟩
  | (price, source) :: records, content, hfront, hsole => by
    rw [linesOf_cons] at hfront
    by_cases hline : lineText price source ++ ['\n'] <+: content
    · obtain ⟨rest, rfl⟩ := hline
      obtain ⟨k, hk, hend, hread⟩ := fileEntries_prefix records rest ((List.prefix_append_right_inj _).1 hfront)
        fun r hr => hsole r (List.mem_cons_of_mem _ hr)
      refine ⟨k + 1, Nat.succ_le_succ hk, fun hlt => ?_, fun a => ?_⟩
      · have := hend (Nat.lt_of_succ_lt_succ hlt)
        simp only [List.take_succ_cons, linesOf_cons, List.length_append] at this ⊢
        omega
      · rw [fileEntries_cons, valuesUnder_cons, hread, List.take_succ_cons, pricesOf_cons]
        simp only [display_inj]
    · -- the file breaks off in this line
      have hcut : content <+: lineText price source := by
        rcases List.prefix_or_prefix_of_prefix hfront (List.prefix_append _ _) with hcut | h
        · rcases List.prefix_concat_iff.1 hcut with rfl | hcut
          · exact absurd (List.prefix_refl _) hline
          · exact hcut
        · exact absurd h hline
      have hend : ∀ k, content.length < (linesOf (((price, source) :: records).take (k + 1))).length := by
        intro k
        have := hcut.length_le
        rw [List.take_succ_cons, linesOf_cons, List.length_append, List.length_append, List.length_singleton]
        omega
      rcases fileEntries_cut hcut with hnone | ⟨ip, hip, hone⟩
      · exact ⟨0, Nat.zero_le _, fun _ => hend 0, fun a => by rw [hnone]; rfl⟩
      · by_cases hwhole : ip = source.display.toList
        · refine ⟨1, Nat.succ_le_succ (Nat.zero_le _), fun _ => hend 1, fun a => ?_⟩
          rw [hone, valuesUnder_cons, List.take_succ_cons, List.take_zero, pricesOf_cons, hwhole]
          simp only [display_inj]
          rfl
        · refine ⟨0, Nat.zero_le _, fun _ => hend 0, fun a => ?_⟩
          have hne : ip ≠ a.display.toList := by
            rintro rfl
            exact hwhole (display_inj.2 (hsole _ List.mem_cons_self a hip).symm)
          rw [hone, valuesUnder_cons, if_neg hne]
          rfl

end Qos
