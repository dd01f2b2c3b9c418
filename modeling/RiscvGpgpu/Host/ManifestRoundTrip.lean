import RiscvGpgpu.Host.KernelLoader

/-!
# A packed bundle is read back

The manifest is JSON without escapes. A kernel name, a path and an entry symbol without quotes and
line ends are read back as they were written, each from its own line and from no other; a quote or a
line end in the kernel name is always lost.
-/

namespace RiscvGpgpu.Host

open Text
open Paths (Path isAbsolute absolute lexicallyNormal)

/-! ## Lines -/

def stringLine (key : String) (value : List Char) : List Char :=
  ' ' :: ' ' :: (quoted key.toList ++ ':' :: ' ' :: (quoted value ++ [',']))

def numberLine (key : String) (value : ℕ) (ending : List Char) : List Char :=
  ' ' :: ' ' :: (quoted key.toList ++ ':' :: ' ' :: (decimal value ++ ending))

/-- A key is without quotes and colons. -/
def IsKey (key : String) : Prop := '"' ∉ key.toList ∧ ':' ∉ key.toList

instance (key : String) : Decidable (IsKey key) := inferInstanceAs (Decidable (_ ∧ _))

section Keys

variable {key k : String} {value : List Char} {n : ℕ} {ending : List Char}

theorem find_behind_indent {pat t : List Char} :
    find (quoted pat) (' ' :: ' ' :: t) = find (quoted pat) t :=
  find_append_of_notMem (u := [' ', ' ']) (by decide)

/-- A line has no colon behind a key other than its own. -/
theorem colonBehind_stringLine_of_ne (hkey : IsKey key) (hk : IsKey k) (hne : k ≠ key)
    (hvalue : '"' ∉ value) : colonBehind (stringLine key value) k = none := by
  have hfind : find (quoted k.toList) (stringLine key value) =
      find (quoted k.toList) ('"' :: (value ++ '"' :: [','])) := by
    have hsep : k.toList ≠ [':', ' '] := fun heq => hk.2 (heq ▸ by decide)
    have hline : stringLine key value = ' ' :: ' ' :: '"' :: (key.toList ++
        '"' :: ([':', ' '] ++ '"' :: (value ++ '"' :: [',']))) := by
      simp [stringLine, quoted]
    rw [hline, find_behind_indent, find_quoted_of_ne hk.1 hkey.1 (mt String.toList_inj.1 hne),
      find_quoted_of_ne hk.1 (by decide) hsep]
  unfold colonBehind
  rw [hfind]
  by_cases heq : k.toList = value
  · rw [← heq, find_quoted_self hk.1]
    refine find_of_notMem ?_
    simp [hk.2]
  · rw [find_quoted_of_ne hk.1 hvalue heq, find_quoted_last (by decide)]
    rfl

theorem colonBehind_numberLine_of_ne (hkey : IsKey key) (hk : IsKey k) (hne : k ≠ key)
    (hending : '"' ∉ ending) : colonBehind (numberLine key n ending) k = none := by
  have hline : numberLine key n ending = ' ' :: ' ' :: '"' :: (key.toList ++
      '"' :: ([':', ' '] ++ (decimal n ++ ending))) := by
    simp [numberLine, quoted]
  have hlast : '"' ∉ [':', ' '] ++ (decimal n ++ ending) := by
    simp [hending, notMem_decimal (c := '"') (n := n) (by decide)]
  unfold colonBehind
  rw [hline, find_behind_indent, find_quoted_of_ne hk.1 hkey.1 (mt String.toList_inj.1 hne),
    find_quoted_last hlast]
  rfl

/-- Behind its own key a line goes on with the colon. -/
theorem colonBehind_self (hkey : IsKey key) (t : List Char) :
    colonBehind (' ' :: ' ' :: (quoted key.toList ++ ':' :: t)) key = some (':' :: t) := by
  have hline : quoted key.toList ++ ':' :: t = '"' :: (key.toList ++ '"' :: (':' :: t)) := by
    simp [quoted]
  unfold colonBehind
  rw [find_behind_indent, hline, find_quoted_self hkey.1, Option.bind_some]
  have hskip : ':' ∉ '"' :: (key.toList ++ ['"']) := by simp [hkey.2]
  have happ : '"' :: (key.toList ++ '"' :: (':' :: t)) =
      ('"' :: (key.toList ++ ['"'])) ++ ':' :: t := by simp
  rw [happ, find_append_of_notMem hskip]
  exact find_of_begins ⟨t, rfl⟩

theorem parseString_stringLine (hkey : IsKey key) (hk : IsKey k) (hvalue : '"' ∉ value) :
    parseJsonStringValue (stringLine key value) k = if k = key then some value else none := by
  unfold parseJsonStringValue
  by_cases heq : k = key
  · have hcolon : colonBehind (stringLine key value) key =
        some (':' :: ' ' :: (quoted value ++ [','])) := colonBehind_self hkey _
    have hfind : find ['"'] (' ' :: (quoted value ++ [','])) =
        some ('"' :: (value ++ '"' :: [','])) := by
      have happ : ' ' :: (quoted value ++ [',']) = [' '] ++ '"' :: (value ++ '"' :: [',']) := by
        simp [quoted]
      rw [happ, find_append_of_notMem (by decide)]
      exact find_of_begins ⟨_, rfl⟩
    rw [if_pos heq, heq, hcolon]
    dsimp only [List.tail_cons]
    rw [hfind]
    exact until?_append hvalue
  · rw [if_neg heq, colonBehind_stringLine_of_ne hkey hk heq hvalue]

theorem parseUint64_stringLine (hkey : IsKey key) (hk : IsKey k) (hne : k ≠ key)
    (hvalue : '"' ∉ value) : parseJsonUint64Value (stringLine key value) k = none := by
  unfold parseJsonUint64Value
  rw [colonBehind_stringLine_of_ne hkey hk hne hvalue]

theorem parseString_numberLine (hkey : IsKey key) (hk : IsKey k) (hne : k ≠ key)
    (hending : '"' ∉ ending) : parseJsonStringValue (numberLine key n ending) k = none := by
  unfold parseJsonStringValue
  rw [colonBehind_numberLine_of_ne hkey hk hne hending]

/-- A field ends in a comma or with the line. -/
def IsEnding (ending : List Char) : Prop := ending = [','] ∨ ending = []

theorem parseUint64_numberLine (hkey : IsKey key) (hk : IsKey k) (hn : n < 2 ^ 64)
    (hending : IsEnding ending) : parseJsonUint64Value (numberLine key n ending) k =
      if k = key then some (BitVec.ofNat 64 n) else none := by
  have hquote : '"' ∉ ending := by rcases hending with rfl | rfl <;> decide
  unfold parseJsonUint64Value
  by_cases heq : k = key
  · have hcolon : colonBehind (numberLine key n ending) key =
        some (':' :: ' ' :: (decimal n ++ ending)) := colonBehind_self hkey _
    have hdigit : ∀ c ∈ ending.head?, c.isDigit = false := by
      rcases hending with rfl | rfl <;> simp
    have hspace : ∀ c ∈ ending, isSpace c = false := by
      rcases hending with rfl | rfl <;> simp [isSpace]
    rw [if_pos heq, heq, hcolon]
    dsimp only [List.tail_cons]
    rw [trim_space_decimal hspace]
    exact stoull_decimal hn hdigit
  · rw [if_neg heq, colonBehind_numberLine_of_ne hkey hk heq hquote]

theorem parseUint32_numberLine (hkey : IsKey key) (hk : IsKey k) (hn : n < 2 ^ 32)
    (hending : IsEnding ending) : parseJsonUint32Value (numberLine key n ending) k =
      if k = key then some (BitVec.ofNat 32 n) else none := by
  unfold parseJsonUint32Value
  rw [parseUint64_numberLine hkey hk (by omega) hending]
  by_cases heq : k = key
  · have hnat : (BitVec.ofNat 64 n).toNat = n := by
      rw [BitVec.toNat_ofNat, Nat.mod_eq_of_lt (by omega)]
    rw [if_pos heq, if_pos heq]
    dsimp only
    rw [hnat, if_neg (by omega)]
    refine congrArg some (BitVec.eq_of_toNat_eq ?_)
    rw [BitVec.toNat_setWidth, hnat, BitVec.toNat_ofNat]
  · rw [if_neg heq, if_neg heq]

theorem parseUint32_stringLine (hkey : IsKey key) (hk : IsKey k) (hne : k ≠ key)
    (hvalue : '"' ∉ value) : parseJsonUint32Value (stringLine key value) k = none := by
  unfold parseJsonUint32Value
  rw [parseUint64_stringLine hkey hk hne hvalue]

end Keys

/-! ## The loop -/

section Loop

variable (m : Manifest) {key : String} {value : List Char} {n : ℕ} {ending : List Char}

/-- A line with a string sets the field of its key. -/
theorem readLine_stringLine
    (hkey : key ∈ ["kernel_name", "binary_path", "binary_format", "entry_symbol"])
    (hvalue : '"' ∉ value) : m.readLine (stringLine key value) =
      { m with
        info := { m.info with
          kernelName := if "kernel_name" = key then value else m.info.kernelName
          binaryPath := if "binary_path" = key then value else m.info.binaryPath
          entrySymbol := if "entry_symbol" = key then value else m.info.entrySymbol }
        format := if "binary_format" = key then value else m.format } := by
  have hstring : ∀ k, IsKey k → IsKey key → ∀ old,
      (parseJsonStringValue (stringLine key value) k).getD old =
        if k = key then value else old := by
    intro k hk hkey old
    rw [parseString_stringLine hkey hk hvalue]
    split <;> rfl
  have h32 : ∀ k, IsKey k → IsKey key → k ≠ key → ∀ old,
      (parseJsonUint32Value (stringLine key value) k).getD old = old := by
    intro k hk hkey hne old
    rw [parseUint32_stringLine hkey hk hne hvalue]
    rfl
  have h64 : ∀ k, IsKey k → IsKey key → k ≠ key → ∀ old,
      (parseJsonUint64Value (stringLine key value) k).getD old = old := by
    intro k hk hkey hne old
    rw [parseUint64_stringLine hkey hk hne hvalue]
    rfl
  have hall : ∀ k ∈ ["kernel_name", "binary_path", "binary_format", "entry_symbol"], IsKey k ∧
      k ∉ ["binary_size", "workgroup_x", "workgroup_y", "workgroup_z", "shared_mem_bytes"] := by
    decide
  obtain ⟨hk, hother⟩ := hall key hkey
  have hne : ∀ k ∈ ["binary_size", "workgroup_x", "workgroup_y", "workgroup_z",
      "shared_mem_bytes"], k ≠ key := fun k hmem heq => hother (heq ▸ hmem)
  unfold Manifest.readLine
  rw [hstring "kernel_name" (by decide) hk, hstring "binary_path" (by decide) hk,
    hstring "entry_symbol" (by decide) hk, hstring "binary_format" (by decide) hk,
    h32 "workgroup_x" (by decide) hk (hne _ (by decide)),
    h32 "workgroup_y" (by decide) hk (hne _ (by decide)),
    h32 "workgroup_z" (by decide) hk (hne _ (by decide)),
    h64 "shared_mem_bytes" (by decide) hk (hne _ (by decide)),
    h64 "binary_size" (by decide) hk (hne _ (by decide))]

/-- A line with a number sets the field of its key. -/
theorem readLine_numberLine
    (hkey : key ∈ ["binary_size", "workgroup_x", "workgroup_y", "workgroup_z", "shared_mem_bytes"])
    (hn : n < 2 ^ 64) (hdims : key ∈ ["workgroup_x", "workgroup_y", "workgroup_z"] → n < 2 ^ 32)
    (hending : IsEnding ending) : m.readLine (numberLine key n ending) =
      { m with
        info := { m.info with
          workgroupX := if "workgroup_x" = key then BitVec.ofNat 32 n else m.info.workgroupX
          workgroupY := if "workgroup_y" = key then BitVec.ofNat 32 n else m.info.workgroupY
          workgroupZ := if "workgroup_z" = key then BitVec.ofNat 32 n else m.info.workgroupZ
          sharedMemBytes :=
            if "shared_mem_bytes" = key then BitVec.ofNat 64 n else m.info.sharedMemBytes }
        seenSize := if "binary_size" = key then BitVec.ofNat 64 n else m.seenSize } := by
  have hquote : '"' ∉ ending := by rcases hending with rfl | rfl <;> decide
  have hstring : ∀ k, IsKey k → IsKey key → k ≠ key → ∀ old,
      (parseJsonStringValue (numberLine key n ending) k).getD old = old := by
    intro k hk hkey hne old
    rw [parseString_numberLine hkey hk hne hquote]
    rfl
  have h64 : ∀ k, IsKey k → IsKey key → ∀ old,
      (parseJsonUint64Value (numberLine key n ending) k).getD old =
        if k = key then BitVec.ofNat 64 n else old := by
    intro k hk hkey old
    rw [parseUint64_numberLine hkey hk hn hending]
    split <;> rfl
  have h32 : ∀ k ∈ ["workgroup_x", "workgroup_y", "workgroup_z"], IsKey k → IsKey key → ∀ old,
      (parseJsonUint32Value (numberLine key n ending) k).getD old =
        if k = key then BitVec.ofNat 32 n else old := by
    intro k hmem hk hkey old
    by_cases heq : k = key
    · rw [parseUint32_numberLine hkey hk (hdims (heq ▸ hmem)) hending, if_pos heq, if_pos heq]
      rfl
    · unfold parseJsonUint32Value
      rw [parseUint64_numberLine hkey hk hn hending, if_neg heq, if_neg heq]
      rfl
  have hall : ∀ k ∈ ["binary_size", "workgroup_x", "workgroup_y", "workgroup_z",
      "shared_mem_bytes"], IsKey k ∧
      k ∉ ["kernel_name", "binary_path", "binary_format", "entry_symbol"] := by
    decide
  obtain ⟨hk, hother⟩ := hall key hkey
  have hne : ∀ k ∈ ["kernel_name", "binary_path", "binary_format", "entry_symbol"], k ≠ key :=
    fun k hmem heq => hother (heq ▸ hmem)
  unfold Manifest.readLine
  rw [hstring "kernel_name" (by decide) hk (hne _ (by decide)),
    hstring "binary_path" (by decide) hk (hne _ (by decide)),
    hstring "entry_symbol" (by decide) hk (hne _ (by decide)),
    hstring "binary_format" (by decide) hk (hne _ (by decide)),
    h32 "workgroup_x" (by decide) (by decide) hk, h32 "workgroup_y" (by decide) (by decide) hk,
    h32 "workgroup_z" (by decide) (by decide) hk, h64 "shared_mem_bytes" (by decide) hk,
    h64 "binary_size" (by decide) hk]

/-- A brace sets nothing. -/
theorem readLine_brace {c : Char} (hc : c ≠ '"') : m.readLine [c] = m := by
  have hcolon : ∀ k, colonBehind [c] k = none := by
    intro k
    unfold colonBehind
    rw [quoted, find_of_notMem (by simpa using hc.symm)]
    rfl
  unfold Manifest.readLine parseJsonUint32Value parseJsonUint64Value parseJsonStringValue
  rw [hcolon, hcolon, hcolon, hcolon, hcolon, hcolon, hcolon, hcolon, hcolon]
  rfl

end Loop

/-- Text that a line of the manifest can hold between quotes. -/
def Clean (t : List Char) : Prop := '"' ∉ t ∧ '\n' ∉ t

instance (t : List Char) : Decidable (Clean t) := inferInstanceAs (Decidable (_ ∧ _))

theorem notMem_stringLine {key : String} {value : List Char} (hkey : '\n' ∉ key.toList)
    (hvalue : '\n' ∉ value) : '\n' ∉ stringLine key value := by
  simp [stringLine, quoted, hkey, hvalue]

theorem notMem_numberLine {key : String} {n : ℕ} {ending : List Char} (hkey : '\n' ∉ key.toList)
    (hending : '\n' ∉ ending) : '\n' ∉ numberLine key n ending := by
  simp [numberLine, quoted, hkey, hending, notMem_decimal (c := '\n') (n := n) (by decide)]

theorem stringField_append (key : String) (value t : List Char) :
    stringField key value ++ t = stringLine key value ++ '\n' :: t := by
  simp [stringField, stringLine]

theorem numberField_append (key : String) (n : ℕ) (ending t : List Char) :
    numberField key n ending ++ t = numberLine key n ending ++ '\n' :: t := by
  simp [numberField, numberLine]

/-- The lines of a manifest without stray line ends. -/
theorem lines_manifestText {a : BundleArgs} {path entrySymbol : List Char}
    (format : KernelBundleFormat) (size : BitVec 64) (hname : '\n' ∉ a.kernelName)
    (hpath : '\n' ∉ path) (hentry : '\n' ∉ entrySymbol) :
    lines (manifestText a path format entrySymbol size) =
      [['\x7b'], stringLine "kernel_name" a.kernelName, stringLine "binary_path" path,
        stringLine "binary_format" format.text, stringLine "entry_symbol" entrySymbol,
        numberLine "binary_size" size.toNat [','],
        numberLine "workgroup_x" a.workgroupX.toNat [','],
        numberLine "workgroup_y" a.workgroupY.toNat [','],
        numberLine "workgroup_z" a.workgroupZ.toNat [','],
        numberLine "shared_mem_bytes" a.sharedMemBytes.toNat [], ['\x7d']] := by
  have hformat : '\n' ∉ format.text := by cases format <;> decide
  unfold manifestText
  simp only [List.append_assoc, stringField_append, numberField_append, List.cons_append]
  have hbrace : ∀ t, '\x7b' :: '\n' :: ([] ++ t) = ['\x7b'] ++ '\n' :: t := fun _ => rfl
  rw [hbrace, lines_append (by decide), lines_append (notMem_stringLine (by decide) hname),
    lines_append (notMem_stringLine (by decide) hpath),
    lines_append (notMem_stringLine (by decide) hformat),
    lines_append (notMem_stringLine (by decide) hentry),
    lines_append (notMem_numberLine (by decide) (by decide)),
    lines_append (notMem_numberLine (by decide) (by decide)),
    lines_append (notMem_numberLine (by decide) (by decide)),
    lines_append (notMem_numberLine (by decide) (by decide)),
    lines_append (notMem_numberLine (by decide) (by decide))]
  rfl

/-- The manifest is read back as it was written. -/
theorem ofText_manifestText {a : BundleArgs} {path entrySymbol : List Char}
    (format : KernelBundleFormat) (size : BitVec 64) (hname : Clean a.kernelName)
    (hpath : Clean path) (hentry : Clean entrySymbol) :
    Manifest.ofText (manifestText a path format entrySymbol size) =
      { info := { kernelName := a.kernelName, binaryPath := path, entrySymbol := entrySymbol,
                  workgroupX := a.workgroupX, workgroupY := a.workgroupY,
                  workgroupZ := a.workgroupZ, sharedMemBytes := a.sharedMemBytes }
        seenSize := size
        format := format.text } := by
  have hformat : '"' ∉ format.text := by cases format <;> decide
  have h32 : ∀ {v : BitVec 32}, v.toNat < 2 ^ 64 := fun {v} => Nat.lt_trans v.isLt (by decide)
  unfold Manifest.ofText
  rw [lines_manifestText format size hname.2 hpath.2 hentry.2]
  simp only [List.foldl_cons, List.foldl_nil]
  rw [readLine_brace _ (by decide), readLine_brace _ (by decide),
    readLine_stringLine _ (by decide) hname.1, readLine_stringLine _ (by decide) hpath.1,
    readLine_stringLine _ (by decide) hformat, readLine_stringLine _ (by decide) hentry.1,
    readLine_numberLine _ (by decide) size.isLt (fun h => absurd h (by decide)) (.inl rfl),
    readLine_numberLine _ (by decide) h32 (fun _ => a.workgroupX.isLt) (.inl rfl),
    readLine_numberLine _ (by decide) h32 (fun _ => a.workgroupY.isLt) (.inl rfl),
    readLine_numberLine _ (by decide) h32 (fun _ => a.workgroupZ.isLt) (.inl rfl),
    readLine_numberLine _ (by decide) a.sharedMemBytes.isLt (fun h => absurd h (by decide))
      (.inr rfl)]
  simp

/-! ## What a line can hold -/

/-- A value read from a line has no quote in it, and only characters of the line. -/
theorem clean_of_parse {line value : List Char} {key : String} (hline : '\n' ∉ line)
    (h : parseJsonStringValue line key = some value) : Clean value := by
  unfold parseJsonStringValue at h
  split at h
  · exact absurd h (by simp)
  · next fromColon hcolon =>
    split at h
    · exact absurd h (by simp)
    · next fromQuote hquote =>
      obtain ⟨hvalue, hsub⟩ := until?_some h
      refine ⟨hvalue, fun hmem => hline ?_⟩
      obtain ⟨fromKey, hfind, hcolon⟩ := Option.bind_eq_some_iff.1 hcolon
      have hq := (find_suffix hquote).subset (List.mem_of_mem_tail (hsub _ hmem))
      have hc := (find_suffix hcolon).subset (List.mem_of_mem_tail hq)
      exact (find_suffix hfind).subset hc

theorem clean_kernelName (text : List Char) : Clean (Manifest.ofText text).info.kernelName := by
  have hfold : ∀ ls : List (List Char), (∀ l ∈ ls, '\n' ∉ l) → ∀ m : Manifest,
      Clean m.info.kernelName → Clean (ls.foldl Manifest.readLine m).info.kernelName := by
    intro ls
    induction ls with
    | nil => exact fun _ m hm => hm
    | cons line ls ih =>
      intro hls m hm
      refine ih (fun l hl => hls l (by simp [hl])) _ ?_
      show Clean ((parseJsonStringValue line "kernel_name").getD m.info.kernelName)
      cases hp : parseJsonStringValue line "kernel_name" with
      | none => exact hm
      | some value => exact clean_of_parse (hls line (by simp)) hp
  exact hfold _ notMem_lines _ ⟨List.not_mem_nil, List.not_mem_nil⟩

/-! ## Round trip -/

/-- The two packers. -/
def packBundle (fs : FileSystem) (nm : NmTool) (a : BundleArgs) :
    KernelBundleFormat → Option (List Char)
  | .elf => packKernelBundle fs nm a
  | .ptx => packPtxKernelBundle fs a

/-- The path in the manifest. -/
def writtenPath (fs : FileSystem) (a : BundleArgs) : KernelBundleFormat → Path
  | .elf => lexicallyNormal (absolute fs.currentPath a.binaryPath)
  | .ptx => a.binaryPath

/-- The entry symbol in the manifest. -/
def writtenSymbol (fs : FileSystem) (nm : NmTool) (a : BundleArgs) :
    KernelBundleFormat → List Char
  | .elf => entrySymbolOf fs nm a.binaryPath a.kernelName
  | .ptx => a.kernelName

/-- Inspecting a manifest gives what was packed: `fs` is the file system at packing, `fs'` the one
at inspection, and an artifact is the same if its path names the same file. -/
def RoundTrip (fs fs' : FileSystem) (a : BundleArgs) (format : KernelBundleFormat) : Prop :=
  ∃ info, inspectKernelBundleDetails fs' a.manifestPath = some info ∧ info.format = format ∧
    info.kernelName = a.kernelName ∧ fs'.status info.binaryPath = fs.status a.binaryPath ∧
    info.workgroupX = a.workgroupX ∧ info.workgroupY = a.workgroupY ∧
    info.workgroupZ = a.workgroupZ ∧ info.sharedMemBytes = a.sharedMemBytes

/-- The arguments are such that a manifest can hold them and pass the checks. -/
structure Readable (a : BundleArgs) : Prop where
  nonempty : a.kernelName ≠ []
  clean : Clean a.kernelName
  x : a.workgroupX ≠ 0
  y : a.workgroupY ≠ 0
  z : a.workgroupZ ≠ 0

/-- The path in the manifest leads the reader to the artifact. A relative path is looked up beside
the manifest first, and the path that is reported is normalised as text. -/
def Found (fs fs' : FileSystem) (a : BundleArgs) : KernelBundleFormat → Prop
  | .elf =>
    fs'.status (lexicallyNormal (absolute fs.currentPath a.binaryPath)) = fs.status a.binaryPath
  | .ptx =>
    let artifact := artifactPath fs' a.manifestPath a.binaryPath
    (∃ size, fs'.fileSize artifact = some size ∧
      (fs.fileSize a.binaryPath = some 0 ∨ fs.fileSize a.binaryPath = some size)) ∧
    fs'.status (lexicallyNormal (absolute fs'.currentPath artifact)) = fs.status a.binaryPath

section RoundTrip

variable {fs fs' : FileSystem} {nm : NmTool} {a : BundleArgs} {format : KernelBundleFormat}
  {text : List Char}

theorem packBundle_some (h : packBundle fs nm a format = some text) :
    ∃ size, fs.fileSize a.binaryPath = some size ∧
      text = manifestText a (writtenPath fs a format) format
        (writtenSymbol fs nm a format) size := by
  cases format with
  | elf =>
    unfold packBundle packKernelBundle at h
    cases hsize : fs.fileSize a.binaryPath with
    | none =>
      rw [hsize] at h
      split_ifs at h
    | some size =>
      rw [hsize] at h
      dsimp only at h
      split_ifs at h
      exact ⟨size, rfl, (Option.some.inj h).symm⟩
  | ptx =>
    unfold packBundle packPtxKernelBundle at h
    cases hsize : fs.fileSize a.binaryPath with
    | none =>
      rw [hsize] at h
      split_ifs at h
    | some size =>
      rw [hsize] at h
      dsimp only at h
      split_ifs at h
      exact ⟨size, rfl, (Option.some.inj h).symm⟩

theorem isAbsolute_absolute (fs : FileSystem) (p : Path) :
    isAbsolute (absolute fs.currentPath p) = true := by
  unfold absolute
  by_cases hp : isAbsolute p = true
  · rw [if_pos hp]
    exact hp
  · rw [if_neg hp]
    have hroot := fs.rooted
    unfold Paths.join
    cases hc : fs.currentPath with
    | nil =>
      rw [hc] at hroot
      exact absurd hroot (by decide)
    | cons c cs =>
      rw [hc] at hroot
      have hnot : (isAbsolute p || (c :: cs).isEmpty) = false := by
        rw [Bool.not_eq_true] at hp
        rw [hp]
        rfl
      rw [if_neg (by rw [hnot]; decide)]
      split <;> exact hroot

theorem writtenPath_ne_nil {size : BitVec 64} (hsize : fs.fileSize a.binaryPath = some size) :
    writtenPath fs a format ≠ [] := by
  cases format with
  | elf =>
    intro heq
    have habs := Paths.isAbsolute_lexicallyNormal (isAbsolute_absolute fs a.binaryPath)
    rw [show lexicallyNormal (absolute fs.currentPath a.binaryPath) = [] from heq] at habs
    exact absurd habs (by decide)
  | ptx =>
    intro heq
    unfold FileSystem.fileSize at hsize
    rw [show a.binaryPath = [] from heq, fs.status_nil] at hsize
    exact absurd hsize (by simp)

/-- The general form of what the reader makes of the artifact. -/
theorem found_iff {size : BitVec 64} (hsize : fs.fileSize a.binaryPath = some size) :
    Found fs fs' a format ↔
      (∃ size', fs'.fileSize (artifactPath fs' a.manifestPath (writtenPath fs a format)) =
        some size' ∧ (size = 0 ∨ size = size')) ∧
      fs'.status (lexicallyNormal (absolute fs'.currentPath
        (artifactPath fs' a.manifestPath (writtenPath fs a format)))) =
        fs.status a.binaryPath := by
  cases format with
  | elf =>
    have habs := isAbsolute_absolute fs a.binaryPath
    have hnorm := Paths.isAbsolute_lexicallyNormal habs
    have hart : artifactPath fs' a.manifestPath (writtenPath fs a .elf) =
        lexicallyNormal (absolute fs.currentPath a.binaryPath) := by
      unfold artifactPath writtenPath
      rw [if_pos hnorm]
    have hagain : absolute fs'.currentPath
      (lexicallyNormal (absolute fs.currentPath a.binaryPath)) =
        lexicallyNormal (absolute fs.currentPath a.binaryPath) := if_pos hnorm
    rw [hart, hagain, Paths.lexicallyNormal_idem habs]
    refine ⟨fun hf => ⟨⟨size, ?_, .inr rfl⟩, hf⟩, And.right⟩
    unfold FileSystem.fileSize at hsize ⊢
    rwa [show fs'.status _ = fs.status a.binaryPath from hf]
  | ptx =>
    refine and_congr (exists_congr fun size' => and_congr Iff.rfl ?_) Iff.rfl
    rw [hsize]
    exact or_congr Option.some_inj Option.some_inj

/-- With a path and a symbol that a line can hold, reading back succeeds exactly if the arguments
are readable and the artifact is found. -/
theorem roundTrip_iff_of_clean (hpack : packBundle fs nm a format = some text)
    (hread : fs'.read a.manifestPath = some text) (hname : Clean a.kernelName)
    (hpath : Clean (writtenPath fs a format)) (hsym : Clean (writtenSymbol fs nm a format)) :
    RoundTrip fs fs' a format ↔ Readable a ∧ Found fs fs' a format := by
  obtain ⟨size, hsize, rfl⟩ := packBundle_some hpack
  have hinspect : inspectKernelBundleDetails fs' a.manifestPath =
      (Manifest.ofText (manifestText a (writtenPath fs a format) format
        (writtenSymbol fs nm a format) size)).validate fs' a.manifestPath := by
    unfold inspectKernelBundleDetails
    rw [hread]
  rw [ofText_manifestText format size hname hpath hsym] at hinspect
  have hformat : KernelBundleFormat.ofText format.text = some format := by cases format <;> decide
  rw [found_iff hsize]
  constructor
  · rintro ⟨info, hinfo, -, -, hstatus, -⟩
    rw [hinspect] at hinfo
    obtain ⟨⟨hne, -⟩, _, -, size', hs', ⟨hx, hy, hz⟩, -, hseen, rfl⟩ :=
      Manifest.validate_eq_some_iff.1 hinfo
    exact ⟨⟨hne, hname, hx, hy, hz⟩, ⟨size', hs', hseen⟩, hstatus⟩
  · rintro ⟨hargs, ⟨size', hs', hseen⟩, hstatus⟩
    have hne : writtenPath fs a format ≠ [] := writtenPath_ne_nil hsize
    have hchecked : format = .ptx → KernelBundleInfo.checkedSymbol
        { kernelName := a.kernelName, entrySymbol := writtenSymbol fs nm a format } format =
        a.kernelName := by
      rintro rfl
      unfold KernelBundleInfo.checkedSymbol
      split <;> rfl
    refine ⟨_, hinspect.trans (Manifest.validate_eq_some_iff.2 ⟨⟨hargs.nonempty, hne⟩, format,
      hformat, size', hs', ⟨hargs.x, hargs.y, hargs.z⟩, hchecked, hseen, rfl⟩), rfl, rfl, hstatus,
      rfl, rfl, rfl, rfl⟩

/-- **Bundle round trip.** A bundle that is packed is read back if its arguments are readable, the
manifest can hold its path and entry symbol, and the path leads to the artifact; and none of this
can be left out but that a path or symbol that the manifest cannot hold may be lucky. -/
theorem roundTrip_sufficient_necessary (hpack : packBundle fs nm a format = some text)
    (hread : fs'.read a.manifestPath = some text) :
    (Readable a ∧ Clean (writtenPath fs a format) ∧ Clean (writtenSymbol fs nm a format) ∧
        Found fs fs' a format → RoundTrip fs fs' a format) ∧
      (RoundTrip fs fs' a format → Readable a ∧ (Clean (writtenPath fs a format) →
        Clean (writtenSymbol fs nm a format) → Found fs fs' a format)) := by
  constructor
  · rintro ⟨hargs, hpath, hsym, hfound⟩
    exact (roundTrip_iff_of_clean hpack hread hargs.clean hpath hsym).2 ⟨hargs, hfound⟩
  · intro hround
    have hclean : Clean a.kernelName := by
      obtain ⟨info, hinfo, -, hname, -⟩ := hround
      unfold inspectKernelBundleDetails at hinfo
      rw [hread] at hinfo
      obtain ⟨-, _, -, _, -, -, -, -, rfl⟩ := Manifest.validate_eq_some_iff.1 hinfo
      exact hname ▸ clean_kernelName text
    refine ⟨?_, fun hpath hsym =>
      ((roundTrip_iff_of_clean hpack hread hclean hpath hsym).1 hround).2⟩
    obtain ⟨info, hinfo, -, hname, -, hwx, hwy, hwz, -⟩ := hround
    unfold inspectKernelBundleDetails at hinfo
    rw [hread] at hinfo
    obtain ⟨⟨hne, -⟩, _, -, _, -, ⟨hx, hy, hz⟩, -, -, rfl⟩ := Manifest.validate_eq_some_iff.1 hinfo
    exact ⟨hname ▸ hne, hclean, hwx ▸ hx, hwy ▸ hy, hwz ▸ hz⟩

end RoundTrip

section Examples

/-- A PTX bundle for a file `/k.ptx`, in a directory with nothing else. -/
def bundleFor (kernelName : List Char) : BundleArgs where
  kernelName := kernelName
  binaryPath := "/k.ptx".toList
  manifestPath := "/m.json".toList
  workgroupX := 8
  workgroupY := 1
  workgroupZ := 1
  sharedMemBytes := 0

def directoryWith (text : List Char) : FileSystem where
  currentPath := ['/']
  rooted := Paths.isAbsolute_root
  status p := if p = "/k.ptx".toList then some ⟨1, true, 20⟩ else none
  status_nil := by decide
  read p := if p = "/m.json".toList then some text else none
  writable _ := true

/-- What is written for a bundle. -/
def manifestFor (kernelName : List Char) : List Char :=
  manifestText (bundleFor kernelName) "/k.ptx".toList .ptx kernelName 20

theorem roundTrip_vadd :
    RoundTrip (directoryWith []) (directoryWith (manifestFor "vadd".toList))
      (bundleFor "vadd".toList) .ptx :=
  (roundTrip_sufficient_necessary
    (show packBundle _ none _ _ = some (manifestFor "vadd".toList) by decide +kernel)
    (by decide +kernel)).1
    ⟨⟨by decide, by decide, by decide, by decide, by decide⟩, by decide +kernel, by decide +kernel,
      ⟨20, by decide +kernel, .inr (by decide +kernel)⟩, by decide +kernel⟩

/-- A quote in the kernel name is lost. -/
theorem not_roundTrip : ¬ ∀ (fs fs' : FileSystem) (nm : NmTool) (a : BundleArgs)
    (format : KernelBundleFormat) (text : List Char), packBundle fs nm a format = some text →
    fs'.read a.manifestPath = some text → fs'.status a.binaryPath = fs.status a.binaryPath →
    RoundTrip fs fs' a format := by
  intro hall
  obtain ⟨info, hinfo, -, hname, -⟩ :=
    hall (directoryWith []) (directoryWith (manifestFor ['a', '"']))
    none (bundleFor ['a', '"']) .ptx (manifestFor ['a', '"']) (by decide +kernel)
    (by decide +kernel) rfl
  have hread : (inspectKernelBundleDetails (directoryWith (manifestFor ['a', '"']))
      (bundleFor ['a', '"']).manifestPath).map (·.kernelName) ≠ some ['a', '"'] := by
    decide +kernel
  rw [hinfo] at hread
  exact hread (congrArg some hname)

end Examples

end RiscvGpgpu.Host
