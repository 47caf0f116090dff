import SysuOs.VfsNormal

/-! `normalizePath` against the fold over components that it stands for. The buffer is always the path of
a list of components, and a component changes it as it changes the list, as long as the path fits. -/

namespace SysuOs.Vfs

/-- What stands between the slashes of a path. -/
def components (path : List Char) : List (List Char) := (path.splitOn '/').filter (· ≠ [])

/-- One more component of a path. -/
def enterComponent (cs : List (List Char)) (c : List Char) : List (List Char) :=
  if c = ['.'] then cs else if c = ['.', '.'] then cs.dropLast else cs ++ [c]

def fold (parts : List (List Char)) : List (List Char) := parts.foldl enterComponent []

/-- The components that are folded: those of `cwd` come first if the path is relative. -/
def parts (cwd path : List Char) : List (List Char) :=
  if path.head? = some '/' then components path else components cwd ++ components path

/-- A relative path in a directory that is itself relative. -/
def RelativeCwd (cwd path : List Char) : Prop :=
  path.head? ≠ some '/' ∧ cwd ≠ [] ∧ cwd.head? ≠ some '/'

/-- A result on the way does not fit into the buffer. -/
def Overflows (parts : List (List Char)) : Prop :=
  ∃ done, done <+: parts ∧ MAX_PATH_LENGTH ≤ (render (fold done)).length

/-- An absolute path that fits, with nothing in it to normalise. -/
structure Canonical (path : List Char) : Prop where
  absolute : path.head? = some '/'
  components : path ≠ ['/'] → ∀ c ∈ (path.drop 1).splitOn '/', c ≠ [] ∧ c ≠ ['.'] ∧ c ≠ ['.', '.']
  no_trailing : path ≠ ['/'] → path.getLast? ≠ some '/'
  short : path.length < MAX_PATH_LENGTH

section

variable {c : List Char} {cs : List (List Char)}

theorem Normal.enterComponent (h : Normal (render cs) cs) (hne : c ≠ []) (hslash : '/' ∉ c)
    (hshort : (render (Vfs.enterComponent cs c)).length < MAX_PATH_LENGTH) :
    Normal (render (Vfs.enterComponent cs c)) (Vfs.enterComponent cs c) := by
  refine ⟨?_, rfl, hshort⟩
  unfold Vfs.enterComponent
  split
  · exact h.components
  · rename_i hdot
    split
    · exact h.dropLast.components
    · rename_i hdots
      exact isComponent_concat h.components ⟨hne, hdot, hdots, hslash⟩

/-- A step of `path_consume_part` is a step of the fold, if the result fits. -/
theorem Normal.consume_eq (h : Normal (render cs) cs) (hne : c ≠ []) (hslash : '/' ∉ c) :
    Vfs.consume (render cs) c =
      if MAX_PATH_LENGTH ≤ (render (Vfs.enterComponent cs c)).length then none
      else some (render (Vfs.enterComponent cs c)) := by
  unfold Vfs.consume Vfs.enterComponent
  by_cases hdot : c = ['.']
  · have hfits := h.short
    rw [hdot, if_neg (by decide), if_pos rfl, if_neg (by omega)]
    rfl
  · by_cases hdots : c = ['.', '.']
    · have hfits := h.dropLast.short
      have hone : ¬(['.', '.'] : List Char) = ['.'] := by decide
      rw [hdots, if_neg (by decide), if_neg hone, if_pos rfl, if_neg (by omega), pathAppendComponent,
        if_neg (by decide), if_pos rfl, pathPopComponent_render h.components]
    · have hc : IsComponent c := ⟨hne, hdot, hdots, hslash⟩
      rw [if_neg hdot, if_neg hdots, pathAppendComponent_render hc h.components]
      split
      · -- the component alone is too long already
        rename_i hlong
        have hrender : MAX_PATH_LENGTH ≤ (render (cs ++ [c])).length := by
          rw [render_concat, List.length_append, List.length_cons]
          omega
        rw [if_pos hrender]
      · rfl

/-- The fold of further components overflows, or is what is in the buffer. -/
theorem Normal.foldlM_consume_eq {ds : List (List Char)} (h : Normal (render cs) cs)
    (hds : ∀ d ∈ ds, d ≠ [] ∧ '/' ∉ d) :
    (ds.foldlM Vfs.consume (render cs) = none ↔
      ∃ done, done <+: ds ∧ MAX_PATH_LENGTH ≤ (render (done.foldl Vfs.enterComponent cs)).length) ∧
    ∀ out, ds.foldlM Vfs.consume (render cs) = some out →
      out = render (ds.foldl Vfs.enterComponent cs) ∧
        Normal (render (ds.foldl Vfs.enterComponent cs)) (ds.foldl Vfs.enterComponent cs) := by
  induction ds generalizing cs with
  | nil =>
      constructor
      · apply iff_of_false nofun
        rintro ⟨done, hdone, hlong⟩
        rw [List.prefix_nil.mp hdone] at hlong
        have hshort := h.short
        rw [List.foldl_nil] at hlong
        omega
      · intro out hout
        obtain rfl := Option.some.inj hout
        exact ⟨rfl, h⟩
  | cons d ds ih =>
      obtain ⟨hne, hslash⟩ := hds d List.mem_cons_self
      have hrest : ∀ e ∈ ds, e ≠ [] ∧ '/' ∉ e := fun e he => hds e (List.mem_cons_of_mem d he)
      rw [List.foldlM_cons, h.consume_eq hne hslash, List.foldl_cons]
      by_cases hlong : MAX_PATH_LENGTH ≤ (render (Vfs.enterComponent cs d)).length
      · rw [if_pos hlong]
        refine ⟨iff_of_true rfl ⟨[d], ?_, hlong⟩, nofun⟩
        exact List.prefix_cons_inj d |>.mpr List.nil_prefix
      · rw [if_neg hlong]
        have hnormal := h.enterComponent hne hslash (by omega)
        obtain ⟨hnone, hsome⟩ := ih hnormal hrest
        refine ⟨hnone.trans ⟨?_, ?_⟩, hsome⟩
        · rintro ⟨done, hdone, hover⟩
          exact ⟨d :: done, List.prefix_cons_inj d |>.mpr hdone, hover⟩
        · rintro ⟨done, hdone, hover⟩
          cases done with
          | nil =>
              have hshort := h.short
              rw [List.foldl_nil] at hover
              omega
          | cons e done =>
              rw [List.cons_prefix_cons] at hdone
              obtain ⟨rfl, hdone⟩ := hdone
              exact ⟨done, hdone, hover⟩

end

variable {cwd path : List Char}

theorem mem_components {d : List Char} (h : d ∈ components path) : d ≠ [] ∧ '/' ∉ d := by
  obtain ⟨hd, hne⟩ := List.mem_filter.mp h
  exact ⟨by simpa using hne, no_slash_of_mem_splitOn hd⟩

theorem mem_parts {d : List Char} (h : d ∈ parts cwd path) : d ≠ [] ∧ '/' ∉ d := by
  unfold parts at h
  split at h
  · exact mem_components h
  · rcases List.mem_append.mp h with h | h
    · exact mem_components h
    · exact mem_components h

/-- `normalizePath` of strings that fit consumes the parts, from the root on. -/
theorem normalizePath_eq (hcwd : cwd.length < MAX_PATH_LENGTH) (hpath : path.length < MAX_PATH_LENGTH)
    (hrelative : ¬RelativeCwd cwd path) : normalizePath cwd path = (parts cwd path).foldlM consume (render []) := by
  unfold normalizePath parts
  rw [pathLength, pathLength, if_pos hpath, if_pos hcwd]
  dsimp only
  split
  · rfl
  · rename_i hrel
    by_cases hempty : cwd = []
    · rw [if_pos hempty, hempty]
      rfl
    · have habsolute : cwd.head? = some '/' := by
        by_contra hne
        exact hrelative ⟨hrel, hempty, hne⟩
      rw [if_neg hempty, if_pos habsolute, List.foldlM_append]
      rfl

theorem normalizePath_relativeCwd (h : RelativeCwd cwd path) : normalizePath cwd path = none := by
  unfold normalizePath
  split
  · rw [if_neg h.1, if_neg h.2.1, if_neg h.2.2]
  · rfl

theorem Normal.canonical {cs : List (List Char)} (h : Normal path cs) : Canonical path := by
  obtain ⟨hcs, rfl, hshort⟩ := h
  cases cs with
  | nil => exact ⟨rfl, fun hne => absurd rfl hne, fun hne => absurd rfl hne, hshort⟩
  | cons c cs =>
      have hc := hcs c List.mem_cons_self
      refine ⟨by rw [render_cons]; rfl, fun _ d hd => ?_, fun _ => ?_, hshort⟩
      · have hsplit := splitOn_below hc.no_slash (fun d hd => hcs d (List.mem_cons_of_mem c hd))
        rw [render_cons, List.drop_one, List.tail_cons, hsplit] at hd
        exact ⟨(hcs d hd).ne_nil, (hcs d hd).ne_dot, (hcs d hd).ne_dots⟩
      · obtain ⟨init, last, hlast⟩ := List.eq_nil_or_concat (c :: cs) |>.resolve_left (List.cons_ne_nil c cs)
        rw [List.concat_eq_append] at hlast
        have hd : IsComponent last := hcs last (by rw [hlast]; simp)
        rw [hlast, render_concat, List.getLast?_append_of_ne_nil _ (List.cons_ne_nil _ _),
          List.getLast?_cons_of_ne_nil hd.ne_nil]
        exact fun hmem => hd.no_slash (List.mem_of_getLast? hmem)

/-- `normalizePath` fails for a relative path in a relative directory and when a result on the way does
not fit; what it returns otherwise is the path of the folded components, which is canonical and left as
it is from then on. -/
theorem normalizePath_canonical (hcwd : cwd.length < MAX_PATH_LENGTH) (hpath : path.length < MAX_PATH_LENGTH) :
    (normalizePath cwd path = none ↔ RelativeCwd cwd path ∨ Overflows (parts cwd path)) ∧
    ∀ out, normalizePath cwd path = some out →
      out = render (fold (parts cwd path)) ∧ Canonical out ∧
        ∀ cwd', cwd'.length < MAX_PATH_LENGTH → normalizePath cwd' out = some out := by
  by_cases hrelative : RelativeCwd cwd path
  · rw [normalizePath_relativeCwd hrelative]
    exact ⟨iff_of_true rfl (Or.inl hrelative), nofun⟩
  · have hroot : Normal (render []) [] := Normal.root
    obtain ⟨hnone, hsome⟩ := hroot.foldlM_consume_eq (fun d hd => @mem_parts cwd path d hd)
    rw [normalizePath_eq hcwd hpath hrelative, or_iff_right hrelative]
    refine ⟨hnone, fun out hout => ?_⟩
    obtain ⟨rfl, hnormal⟩ := hsome out hout
    exact ⟨rfl, hnormal.canonical, fun cwd' hcwd' => hnormal.normalizePath hcwd'⟩

theorem normalizePath_canonical_dots :
    ∃ out, normalizePath ['/', 'a'] ['.', '.', '/', '/', 'b', '/', '.'] = some out ∧
      out = render (fold (parts ['/', 'a'] ['.', '.', '/', '/', 'b', '/', '.'])) ∧ Canonical out := by
  have hsome : normalizePath ['/', 'a'] ['.', '.', '/', '/', 'b', '/', '.'] = some ['/', 'b'] := by decide +kernel
  obtain ⟨heq, hcanonical, -⟩ := (normalizePath_canonical (by decide) (by decide)).2 _ hsome
  exact ⟨_, hsome, heq, hcanonical⟩

/-! ### `splitPath` -/

/-- A name in a directory, as a path. -/
def joinPath (parent name : List Char) : List Char := parent ++ (if parent = ['/'] then [] else ['/']) ++ name

theorem render_eq_root {cs : List (List Char)} (hcs : ∀ c ∈ cs, IsComponent c) : render cs = ['/'] ↔ cs = [] := by
  cases cs with
  | nil => exact iff_of_true rfl rfl
  | cons c cs =>
      refine iff_of_false ?_ (List.cons_ne_nil c cs)
      intro h
      rw [render_cons] at h
      have hnil := (List.append_eq_nil_iff.mp (List.cons.inj h).2).1
      exact (hcs c List.mem_cons_self).ne_nil hnil

theorem joinPath_render {cs : List (List Char)} (hcs : ∀ c ∈ cs, IsComponent c) (c : List Char) :
    joinPath (render cs) c = render (cs ++ [c]) := by
  unfold joinPath
  cases cs with
  | nil =>
      rw [render_nil, if_pos rfl, render_concat]
      rfl
  | cons d cs =>
      have hroot : render (d :: cs) ≠ ['/'] := fun h => List.cons_ne_nil d cs ((render_eq_root hcs).mp h)
      calc render (d :: cs) ++ (if render (d :: cs) = ['/'] then [] else ['/']) ++ c
          = render (d :: cs) ++ ['/'] ++ c := by rw [if_neg hroot]
        _ = render (d :: cs ++ [c]) := by rw [render_concat, render_cons, below_cons]; simp

/-- The parts of a path that is not the root. -/
structure Splits (normalized parent name : List Char) : Prop where
  name_ne : name ≠ []
  no_slash : '/' ∉ name
  fixed : ∀ cwd, cwd.length < MAX_PATH_LENGTH → normalizePath cwd parent = some parent
  join : joinPath parent name = normalized
  parent_short : parent.length < MAX_PATH_LENGTH
  name_short : name.length < MAX_PATH_LENGTH

theorem Normal.splits {normalized : List Char} {cs : List (List Char)} (h : Normal normalized cs) (hne : cs ≠ []) :
    Splits normalized (render cs.dropLast) (cs.getLast hne) := by
  have hlast := h.components _ (List.getLast_mem hne)
  have hjoin : joinPath (render cs.dropLast) (cs.getLast hne) = normalized := by
    rw [joinPath_render h.dropLast.components, List.dropLast_append_getLast hne, h.eq]
  refine ⟨hlast.ne_nil, hlast.no_slash, ?_, hjoin, h.dropLast.short, ?_⟩
  · intro cwd hcwd
    exact h.dropLast.normalizePath hcwd
  · have hshort := h.short
    rw [← hjoin] at hshort
    simp only [joinPath, List.length_append] at hshort
    omega

/-- `splitPath` takes apart every normalised path but the root, and the parts joined are that path again. -/
theorem splitPath_join (cwd path : List Char) :
    ((splitPath cwd path).isSome ↔ ∃ normalized, normalizePath cwd path = some normalized ∧ normalized ≠ ['/']) ∧
      ∀ parent name, splitPath cwd path = some (parent, name) →
        ∃ normalized, normalizePath cwd path = some normalized ∧ Splits normalized parent name := by
  unfold splitPath
  cases hnormalize : normalizePath cwd path with
  | none => exact ⟨by simp, nofun⟩
  | some normalized =>
      obtain ⟨-, cs, hnormal⟩ := normalizePath_normal hnormalize
      rw [Option.bind_some]
      by_cases hroot : cs = []
      · have heq : normalized = ['/'] := by rw [hnormal.eq, hroot, render_nil]
        rw [heq, splitNormalized_root]
        exact ⟨by simp, nofun⟩
      · have hne : normalized ≠ ['/'] := fun h => hroot ((render_eq_root hnormal.components).mp (hnormal.eq ▸ h))
        rw [hnormal.splitNormalized hroot]
        refine ⟨iff_of_true rfl ⟨normalized, rfl, hne⟩, ?_⟩
        rintro parent name ⟨⟩
        exact ⟨normalized, rfl, hnormal.splits hroot⟩

end SysuOs.Vfs
