import Mathlib.Data.List.Basic
import Mathlib.Tactic.Common

/-!
# POSIX paths

The part of `std::filesystem::path` that looks at the text only. `lexicallyNormal` follows the
names of a path with a stack; on absolute paths it is idempotent.
-/

namespace Paths

abbrev Path := List Char

def isAbsolute (p : Path) : Bool := p.head? == some '/'

theorem isAbsolute_root : isAbsolute ['/'] = true := rfl

/-- `operator/`. -/
def join (p q : Path) : Path :=
  if isAbsolute q || p.isEmpty then q
  else if p.getLast? = some '/' then p ++ q
  else p ++ '/' :: q

/-- The path as seen from a current path. -/
def absolute (current p : Path) : Path := if isAbsolute p then p else join current p

/-- `parent_path`. -/
def parentPath (p : Path) : Path :=
  let dir := ((p.reverse.dropWhile (· ≠ '/')).dropWhile (· = '/')).reverse
  if dir.isEmpty && isAbsolute p then ['/'] else dir

/-! ## Normal form -/

def dot : List Char := ['.']

def dotDot : List Char := ['.', '.']

/-- What stands between slashes. -/
def pieces (p : Path) : List (List Char) := p.splitOn '/'

/-- A name follows others, the last of which comes first; the flag says that they end in a
slash. -/
def follow (rooted : Bool) (s : List (List Char) × Bool) (name : List Char) :
    List (List Char) × Bool :=
  if name = dot then (s.1, true)
  else if name = dotDot then
    match s.1 with
    | [] => if rooted then ([], true) else ([dotDot], false)
    | top :: below => if top = dotDot then (dotDot :: s.1, false) else (below, true)
  else (name :: s.1, false)

def render (rooted : Bool) (names : List (List Char)) (slash : Bool) : Path :=
  ['/'].intercalate ((if rooted then [[]] else []) ++ names ++ if slash then [[]] else [])

/-- The names that remain of a path, the last one first. -/
def remaining (p : Path) : List (List Char) × Bool :=
  ((pieces p).filter (· ≠ [])).foldl (follow (isAbsolute p)) ([], false)

def lexicallyNormal (p : Path) : Path :=
  if p = [] then []
  else if (remaining p).1 = [] then if isAbsolute p then ['/'] else dot
  else
    let slash := (remaining p).2 || (pieces p).getLast? == some []
    render (isAbsolute p) (remaining p).1.reverse
      (slash && (remaining p).1.head? != some dotDot)

/-! ## Idempotence -/

/-- A name that is not empty and leads down. -/
structure Plain (name : List Char) : Prop where
  slash : '/' ∉ name
  nonempty : name ≠ []
  dot : name ≠ dot
  dotDot : name ≠ dotDot

theorem follow_plain {rooted : Bool} {s : List (List Char) × Bool} {name : List Char}
    (h : Plain name) : follow rooted s name = (name :: s.1, false) := by
  rw [follow, if_neg h.dot, if_neg h.dotDot]

/-- From the root only plain names remain. -/
theorem plain_follow {s : List (List Char) × Bool} {name : List Char} (hs : ∀ n ∈ s.1, Plain n)
    (hslash : '/' ∉ name) (hne : name ≠ []) : ∀ n ∈ (follow true s name).1, Plain n := by
  unfold follow
  by_cases hdot : name = dot
  · rw [if_pos hdot]
    exact hs
  · rw [if_neg hdot]
    by_cases hdd : name = dotDot
    · rw [if_pos hdd]
      split
      · exact fun n hn => absurd hn (by simp)
      · next top below heq =>
        rw [heq] at hs
        rw [if_neg (hs top (by simp)).dotDot]
        exact fun n hn => hs n (by simp [hn])
    · rw [if_neg hdd]
      intro n hn
      rcases List.mem_cons.1 hn with rfl | hn
      · exact ⟨hslash, hne, hdot, hdd⟩
      · exact hs n hn

theorem plain_foldl {names : List (List Char)} (hslash : ∀ n ∈ names, '/' ∉ n ∧ n ≠ [])
    {s : List (List Char) × Bool} (hs : ∀ n ∈ s.1, Plain n) :
    ∀ n ∈ (names.foldl (follow true) s).1, Plain n := by
  induction names generalizing s with
  | nil => exact hs
  | cons name names ih =>
    obtain ⟨hname, hne⟩ := hslash name (by simp)
    exact ih (fun n hn => hslash n (by simp [hn])) (plain_follow hs hname hne)

theorem foldl_plain {rooted : Bool} {names : List (List Char)} (h : ∀ n ∈ names, Plain n)
    (hne : names ≠ []) (s : List (List Char) × Bool) :
    names.foldl (follow rooted) s = (names.reverse ++ s.1, false) := by
  induction names generalizing s with
  | nil => exact absurd rfl hne
  | cons name names ih =>
    rw [List.foldl_cons, follow_plain (h name (by simp))]
    by_cases hn : names = []
    · rw [hn]
      rfl
    · rw [ih (fun n hm => h n (by simp [hm])) hn, List.reverse_cons, List.append_assoc]
      rfl

theorem notMem_pieces {p : Path} : ∀ n ∈ pieces p, '/' ∉ n := by
  induction p with
  | nil =>
    intro n hn
    rw [List.mem_singleton.1 hn]
    exact List.not_mem_nil
  | cons c p ih =>
    intro n hn
    unfold pieces at hn ih
    rw [List.splitOn_cons_eq_if_modifyHead] at hn
    split_ifs at hn with hc
    · rcases List.mem_cons.1 hn with rfl | hn
      · exact List.not_mem_nil
      · exact ih n hn
    · obtain ⟨first, rest, heq⟩ := List.exists_cons_of_ne_nil (List.splitOn_ne_nil '/' p)
      rw [heq, List.modifyHead_cons] at hn
      rw [heq] at ih
      rcases List.mem_cons.1 hn with rfl | hn
      · rw [List.mem_cons, not_or]
        refine ⟨?_, ih first (by simp)⟩
        rintro rfl
        exact hc rfl
      · exact ih n (by simp [hn])

theorem plain_remaining {p : Path} (hp : isAbsolute p = true) : ∀ n ∈ (remaining p).1, Plain n := by
  unfold remaining
  rw [hp]
  refine plain_foldl (fun n hn => ?_) fun n hn => absurd hn (by simp)
  rw [List.mem_filter] at hn
  exact ⟨notMem_pieces n hn.1, by simpa using hn.2⟩

/-- The pieces of a path put together from plain names. -/
theorem pieces_render {rooted slash : Bool} {names : List (List Char)} (h : ∀ n ∈ names, Plain n)
    (hne : names ≠ []) : pieces (render rooted names slash) =
      (if rooted then [[]] else []) ++ names ++ if slash then [[]] else [] := by
  refine List.splitOn_intercalate _ (fun l hl => ?_) (by simp [hne])
  rw [List.mem_append, List.mem_append] at hl
  rcases hl with (hl | hl) | hl
  · split_ifs at hl <;> simp_all
  · exact (h l hl).slash
  · split_ifs at hl <;> simp_all

theorem isAbsolute_render {slash : Bool} {names : List (List Char)} (hne : names ≠ []) :
    isAbsolute (render true names slash) = true := by
  obtain ⟨name, names, rfl⟩ := List.exists_cons_of_ne_nil hne
  rfl

/-- Plain names from the root are in normal form. -/
theorem lexicallyNormal_render {names : List (List Char)} (h : ∀ n ∈ names, Plain n)
    (hne : names ≠ []) (slash : Bool) :
    lexicallyNormal (render true names slash) = render true names slash := by
  have habs : isAbsolute (render true names slash) = true := isAbsolute_render hne
  have hfilter : (pieces (render true names slash)).filter (· ≠ []) = names := by
    have hself : names.filter (· ≠ []) = names :=
      List.filter_eq_self.2 fun n hn => by simpa using (h n hn).nonempty
    rw [pieces_render h hne, List.filter_append, List.filter_append, hself]
    cases slash
    · exact List.append_nil _
    · exact List.append_nil _
  have hlast : ((pieces (render true names slash)).getLast? == some []) = slash := by
    rw [pieces_render h hne]
    cases slash with
    | true =>
      rw [if_pos (c := true = true) rfl, List.getLast?_concat]
      rfl
    | false =>
      rw [if_neg (c := false = true) (by decide), List.append_nil,
        List.getLast?_append_of_ne_nil _ hne, List.getLast?_eq_some_getLast hne]
      exact beq_false_of_ne fun heq =>
        (h _ (List.getLast_mem hne)).nonempty (Option.some.inj heq)
  have hrem : remaining (render true names slash) = (names.reverse, false) := by
    rw [remaining, hfilter, foldl_plain h hne, List.append_nil]
  have hhead : (names.reverse.head? != some dotDot) = true := by
    rw [bne_iff_ne]
    intro heq
    exact (h dotDot (List.mem_reverse.1 (List.mem_of_mem_head? heq))).dotDot rfl
  unfold lexicallyNormal
  rw [if_neg (by rintro heq; rw [heq] at habs; exact absurd habs (by decide)), hrem, hlast, habs]
  dsimp only
  rw [if_neg (by simpa using hne), hhead, List.reverse_reverse, Bool.false_or, Bool.and_true]

/-- The normal form of an absolute path is absolute. -/
theorem isAbsolute_lexicallyNormal {p : Path} (hp : isAbsolute p = true) :
    isAbsolute (lexicallyNormal p) = true := by
  unfold lexicallyNormal
  rw [if_neg (by rintro rfl; exact absurd hp (by decide)), hp]
  by_cases hnames : (remaining p).1 = []
  · rw [if_pos hnames]
    rfl
  · rw [if_neg hnames]
    exact isAbsolute_render (by simpa using hnames)

theorem lexicallyNormal_idem {p : Path} (hp : isAbsolute p = true) :
    lexicallyNormal (lexicallyNormal p) = lexicallyNormal p := by
  have hplain := plain_remaining hp
  have hne : p ≠ [] := by
    rintro rfl
    exact absurd hp (by decide)
  by_cases hnames : (remaining p).1 = []
  · have hroot : lexicallyNormal p = ['/'] := by
      unfold lexicallyNormal
      rw [if_neg hne, if_pos hnames, if_pos hp]
    rw [hroot]
    decide
  · have hrender : ∃ slash, lexicallyNormal p = render true (remaining p).1.reverse slash := by
      refine ⟨((remaining p).2 || (pieces p).getLast? == some []) &&
        (remaining p).1.head? != some dotDot, ?_⟩
      unfold lexicallyNormal
      rw [if_neg hne, if_neg hnames, hp]
    obtain ⟨slash, hslash⟩ := hrender
    rw [hslash, lexicallyNormal_render (fun n hn => hplain n (List.mem_reverse.1 hn))
      (by simpa using hnames)]

end Paths
