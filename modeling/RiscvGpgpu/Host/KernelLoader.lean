import RiscvGpgpu.Lib.Paths
import RiscvGpgpu.Lib.Text

/-!
# Kernel bundles

`kernel_loader.cpp`. Packing gives the manifest that is written, or nothing where the call returns
false or throws. The file system is what a process sees of it: what a path names and what a stream
reads there. `nm` is a program outside the repository.
-/

namespace RiscvGpgpu.Host

open Text (find lines words until? quoted trim stoull decimal)
open Paths (Path isAbsolute absolute join parentPath lexicallyNormal)

inductive KernelBundleFormat where
  | elf
  | ptx
deriving DecidableEq, Repr

structure KernelBundleInfo where
  kernelName : List Char := []
  binaryPath : Path := []
  entrySymbol : List Char := []
  format : KernelBundleFormat := .elf
  binarySize : BitVec 64 := 0
  workgroupX : BitVec 32 := 1
  workgroupY : BitVec 32 := 1
  workgroupZ : BitVec 32 := 1
  sharedMemBytes : BitVec 64 := 0
deriving DecidableEq, Repr

/-- What a path names: which file, and what is known of it. -/
structure FileStatus where
  file : ℕ
  regular : Bool
  size : BitVec 64
deriving DecidableEq

structure FileSystem where
  currentPath : Path
  rooted : isAbsolute currentPath = true
  status : Path → Option FileStatus
  /-- The empty path names nothing. -/
  status_nil : status [] = none
  /-- The text of a stream that opens. -/
  read : Path → Option (List Char)
  /-- A stream takes what is written to it. -/
  writable : Path → Bool

/-- The output of `nm --defined-only -f posix`, if some `nm` is found. -/
abbrev NmTool := Option (Path → List Char)

namespace FileSystem

def pathExists (fs : FileSystem) (p : Path) : Bool := (fs.status p).isSome

/-- `fs::file_size`; it throws for what is not a regular file. -/
def fileSize (fs : FileSystem) (p : Path) : Option (BitVec 64) :=
  match fs.status p with
  | some s => if s.regular then some s.size else none
  | none => none

end FileSystem

/-! ## Reading a manifest line -/

/-- The rest of a line from the colon behind a key on. -/
def colonBehind (line : List Char) (key : String) : Option (List Char) :=
  (find (quoted key.toList) line).bind (find [':'])

def parseJsonStringValue (line : List Char) (key : String) : Option (List Char) :=
  match colonBehind line key with
  | none => none
  | some fromColon =>
    match find ['"'] fromColon.tail with
    | none => none
    | some fromQuote => until? '"' fromQuote.tail

def parseJsonUint64Value (line : List Char) (key : String) : Option (BitVec 64) :=
  match colonBehind line key with
  | none => none
  | some fromColon => stoull (trim fromColon.tail)

def parseJsonUint32Value (line : List Char) (key : String) : Option (BitVec 32) :=
  match parseJsonUint64Value line key with
  | some v => if 2 ^ 32 ≤ v.toNat then none else some (v.setWidth 32)
  | none => none

/-! ## Entry symbols -/

/-- The symbol of a line of `nm`, if it is that of a function. -/
def functionSymbol (line : List Char) : Option (List Char) :=
  match words line with
  | sym :: type :: _ :: _ =>
    if type = ['T'] ∨ type = ['t'] ∨ type = ['W'] ∨ type = ['w'] then some sym else none
  | _ => none

def extractFirstFunctionSymbol (report : List Char) : Option (List Char) :=
  ((lines report).filterMap functionSymbol).head?

def resolveEntrySymbol (fs : FileSystem) (nm : NmTool) (binaryPath : Path)
    (kernelBaseName : List Char) : Option (List Char) :=
  if fs.pathExists binaryPath then
    match nm with
    | none => none
    | some run =>
      ((lines (run binaryPath)).filterMap functionSymbol).find? fun sym =>
        (find kernelBaseName sym).isSome
  else none

def listKernelSymbols (fs : FileSystem) (nm : NmTool) (binaryPath : Path) : Option (List Char) :=
  if fs.pathExists binaryPath then
    match nm with
    | none => none
    | some run => some (if run binaryPath = [] then "<no symbols>".toList else run binaryPath)
  else none

/-- The entry symbol that `packKernelBundle` writes. -/
def entrySymbolOf (fs : FileSystem) (nm : NmTool) (binaryPath : Path) (kernelName : List Char) :
    List Char :=
  match resolveEntrySymbol fs nm binaryPath kernelName with
  | some sym => sym
  | none =>
    match (listKernelSymbols fs nm binaryPath).bind extractFirstFunctionSymbol with
    | some sym => sym
    | none => kernelName

/-! ## Packing -/

/-- `  "key": "value",` and a line end. -/
def stringField (key : String) (value : List Char) : List Char :=
  ' ' :: ' ' :: (quoted key.toList ++ ':' :: ' ' :: (quoted value ++ [',', '\n']))

/-- `  "key": value`, what ends the field, and a line end. -/
def numberField (key : String) (value : ℕ) (ending : List Char) : List Char :=
  ' ' :: ' ' :: (quoted key.toList ++ ':' :: ' ' :: (decimal value ++ (ending ++ ['\n'])))

/-- What both packers take. -/
structure BundleArgs where
  kernelName : List Char
  binaryPath : Path
  manifestPath : Path
  workgroupX : BitVec 32
  workgroupY : BitVec 32
  workgroupZ : BitVec 32
  sharedMemBytes : BitVec 64

def KernelBundleFormat.text : KernelBundleFormat → List Char
  | elf => "elf".toList
  | ptx => "ptx".toList

def manifestText (a : BundleArgs) (path : Path) (format : KernelBundleFormat)
    (entrySymbol : List Char) (size : BitVec 64) : List Char :=
  ['\x7b', '\n'] ++ stringField "kernel_name" a.kernelName ++ stringField "binary_path" path ++
    stringField "binary_format" format.text ++ stringField "entry_symbol" entrySymbol ++
    numberField "binary_size" size.toNat [','] ++
    numberField "workgroup_x" a.workgroupX.toNat [','] ++
    numberField "workgroup_y" a.workgroupY.toNat [','] ++
    numberField "workgroup_z" a.workgroupZ.toNat [','] ++
    numberField "shared_mem_bytes" a.sharedMemBytes.toNat [] ++ ['\x7d', '\n']

def packKernelBundle (fs : FileSystem) (nm : NmTool) (a : BundleArgs) : Option (List Char) :=
  if fs.pathExists a.binaryPath then
    let entrySymbol := entrySymbolOf fs nm a.binaryPath a.kernelName
    match fs.fileSize a.binaryPath with
    | none => none
    | some size =>
      if fs.writable a.manifestPath then
        some (manifestText a (lexicallyNormal (absolute fs.currentPath a.binaryPath)) .elf
          entrySymbol size)
      else none
  else none

def packPtxKernelBundle (fs : FileSystem) (a : BundleArgs) : Option (List Char) :=
  if a.kernelName = [] ∨ fs.pathExists a.binaryPath = false ∨ a.workgroupX = 0 ∨
      a.workgroupY = 0 ∨ a.workgroupZ = 0 then none
  else
    match fs.fileSize a.binaryPath with
    | none => none
    | some size =>
      if fs.writable a.manifestPath then
        some (manifestText a a.binaryPath .ptx a.kernelName size)
      else none

/-! ## Inspecting -/

/-- The variables of the loop over the lines. -/
structure Manifest where
  info : KernelBundleInfo := {}
  seenSize : BitVec 64 := 0
  format : List Char := "elf".toList

/-- One line of the manifest; a field that a line does not have keeps its value. -/
def Manifest.readLine (m : Manifest) (line : List Char) : Manifest where
  info := { m.info with
    kernelName := (parseJsonStringValue line "kernel_name").getD m.info.kernelName
    binaryPath := (parseJsonStringValue line "binary_path").getD m.info.binaryPath
    entrySymbol := (parseJsonStringValue line "entry_symbol").getD m.info.entrySymbol
    workgroupX := (parseJsonUint32Value line "workgroup_x").getD m.info.workgroupX
    workgroupY := (parseJsonUint32Value line "workgroup_y").getD m.info.workgroupY
    workgroupZ := (parseJsonUint32Value line "workgroup_z").getD m.info.workgroupZ
    sharedMemBytes :=
      (parseJsonUint64Value line "shared_mem_bytes").getD m.info.sharedMemBytes }
  seenSize := (parseJsonUint64Value line "binary_size").getD m.seenSize
  format := (parseJsonStringValue line "binary_format").getD m.format

def Manifest.ofText (text : List Char) : Manifest := (lines text).foldl readLine {}

/-- The path of the artifact: a relative one is looked up beside the manifest first. -/
def artifactPath (fs : FileSystem) (manifestPath path : Path) : Path :=
  if isAbsolute path then path
  else
    let manifestRelative := join (parentPath manifestPath) path
    if fs.pathExists manifestRelative then manifestRelative else path

def KernelBundleFormat.ofText (t : List Char) : Option KernelBundleFormat :=
  if t = "elf".toList then some .elf
  else if t = "ptx".toList then some .ptx
  else none

/-- The entry symbol as it is checked: that of a PTX bundle defaults to its kernel name. -/
def KernelBundleInfo.checkedSymbol (info : KernelBundleInfo) (format : KernelBundleFormat) :
    List Char :=
  if format = .ptx ∧ info.entrySymbol = [] then info.kernelName else info.entrySymbol

/-- The checks behind the loop. -/
def Manifest.validate (m : Manifest) (fs : FileSystem) (manifestPath : Path) :
    Option KernelBundleInfo :=
  if m.info.kernelName = [] ∨ m.info.binaryPath = [] then none
  else
    match KernelBundleFormat.ofText m.format with
    | none => none
    | some format =>
      let artifact := artifactPath fs manifestPath m.info.binaryPath
      match fs.fileSize artifact with
      | none => none
      | some size =>
        if m.info.workgroupX = 0 ∨ m.info.workgroupY = 0 ∨ m.info.workgroupZ = 0 then none
        else
          let entrySymbol := m.info.checkedSymbol format
          if format = .ptx ∧ entrySymbol ≠ m.info.kernelName then none
          else if m.seenSize ≠ 0 ∧ m.seenSize ≠ size then none
          else some { m.info with
            format := format
            binaryPath := lexicallyNormal (absolute fs.currentPath artifact)
            entrySymbol := entrySymbol
            binarySize := size }

def inspectKernelBundleDetails (fs : FileSystem) (manifestPath : Path) :
    Option KernelBundleInfo :=
  match fs.read manifestPath with
  | none => none
  | some text => (Manifest.ofText text).validate fs manifestPath

/-- When the checks pass, and with what. -/
theorem Manifest.validate_eq_some_iff {m : Manifest} {fs : FileSystem} {manifestPath : Path}
    {info : KernelBundleInfo} : m.validate fs manifestPath = some info ↔
      (m.info.kernelName ≠ [] ∧ m.info.binaryPath ≠ []) ∧
      ∃ format, KernelBundleFormat.ofText m.format = some format ∧
      ∃ size, fs.fileSize (artifactPath fs manifestPath m.info.binaryPath) = some size ∧
        (m.info.workgroupX ≠ 0 ∧ m.info.workgroupY ≠ 0 ∧ m.info.workgroupZ ≠ 0) ∧
        (format = .ptx → m.info.checkedSymbol format = m.info.kernelName) ∧
        (m.seenSize = 0 ∨ m.seenSize = size) ∧
        info = { m.info with
          format := format
          binaryPath := lexicallyNormal (absolute fs.currentPath
            (artifactPath fs manifestPath m.info.binaryPath))
          entrySymbol := m.info.checkedSymbol format
          binarySize := size } := by
  unfold validate
  by_cases hempty : m.info.kernelName = [] ∨ m.info.binaryPath = []
  · rw [if_pos hempty]
    exact iff_of_false (by simp) fun hand => hempty.elim hand.1.1 hand.1.2
  · rw [if_neg hempty, and_iff_right (not_or.1 hempty)]
    cases KernelBundleFormat.ofText m.format with
    | none => exact iff_of_false (by simp) (by simp)
    | some format =>
      dsimp only
      cases fs.fileSize (artifactPath fs manifestPath m.info.binaryPath) with
      | none => exact iff_of_false (by simp) (by simp)
      | some size =>
        dsimp only
        by_cases hdims : m.info.workgroupX = 0 ∨ m.info.workgroupY = 0 ∨ m.info.workgroupZ = 0
        · rw [if_pos hdims]
          refine iff_of_false (by simp) ?_
          rintro ⟨_, -, _, -, hx, -⟩
          exact hdims.elim hx.1 fun h => h.elim hx.2.1 hx.2.2
        · rw [if_neg hdims]
          by_cases hsym : format = .ptx ∧ m.info.checkedSymbol format ≠ m.info.kernelName
          · rw [if_pos hsym]
            refine iff_of_false (by simp) ?_
            rintro ⟨_, hf, _, -, -, hx, -⟩
            obtain rfl := Option.some.inj hf
            exact hsym.2 (hx hsym.1)
          · rw [if_neg hsym]
            by_cases hsize : m.seenSize ≠ 0 ∧ m.seenSize ≠ size
            · rw [if_pos hsize]
              refine iff_of_false (by simp) ?_
              rintro ⟨_, -, _, hs, -, -, hx, -⟩
              obtain rfl := Option.some.inj hs
              exact hx.elim hsize.1 hsize.2
            · rw [if_neg hsize]
              have hdims' := not_or.1 hdims
              constructor
              · intro h
                exact ⟨format, rfl, size, rfl, ⟨hdims'.1, not_or.1 hdims'.2⟩,
                  fun hf => by_contra fun hne => hsym ⟨hf, hne⟩,
                  or_iff_not_imp_left.2 fun h0 => by_contra fun hne => hsize ⟨h0, hne⟩,
                  (Option.some.inj h).symm⟩
              · rintro ⟨_, hf, _, hs, -, -, -, hinfo⟩
                obtain rfl := Option.some.inj hf
                obtain rfl := Option.some.inj hs
                rw [hinfo]

/-- A bundle that is inspected has a name. -/
theorem kernelName_ne_nil {fs : FileSystem} {manifestPath : Path} {info : KernelBundleInfo}
    (h : inspectKernelBundleDetails fs manifestPath = some info) : info.kernelName ≠ [] := by
  unfold inspectKernelBundleDetails at h
  split at h
  · exact absurd h (by simp)
  · obtain ⟨⟨hname, -⟩, _, -, _, -, -, -, -, rfl⟩ := Manifest.validate_eq_some_iff.1 h
    exact hname

end RiscvGpgpu.Host
