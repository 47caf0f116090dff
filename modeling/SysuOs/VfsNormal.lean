import SysuOs.VfsPath

/-! Normalised paths. What `normalizePath` gives is the path of a list of components, which `normalizePath`
leaves as it is; the last of them is what `splitPath` splits off. -/

namespace SysuOs.Vfs

/-- `splitPath` of a normalised path: the parent and the name. -/
def splitNormalized (normalized : List Char) : Option (List Char × List Char) :=
  if normalized.length ≤ 1 then none
  else
    let name := (normalized.reverse.takeWhile (· ≠ '/')).reverse
    let slash := normalized.length - name.length - 1
    if name = [] ∨ MAX_PATH_LENGTH ≤ name.length then none
    else some (if slash = 0 then ['/'] else normalized.take slash, name)

/-- `splitPath`. -/
def splitPath (cwd path : List Char) : Option (List Char × List Char) :=
  (normalizePath cwd path).bind splitNormalized

/-! ### The path of a list of components -/

/-- A component of a normalised path. -/
structure IsComponent (c : List Char) : Prop where
  ne_nil : c ≠ []
  ne_dot : c ≠ ['.']
  ne_dots : c ≠ ['.', '.']
  no_slash : '/' ∉ c

def below (components : List (List Char)) : List Char := components.flatMap fun c => '/' :: c

def render (components : List (List Char)) : List Char := if components = [] then ['/'] else below components

@[simp] theorem below_nil : below [] = [] := rfl

@[simp] theorem below_cons (c : List Char) (cs : List (List Char)) : below (c :: cs) = '/' :: (c ++ below cs) := by
  simp [below]

theorem below_append (cs ds : List (List Char)) : below (cs ++ ds) = below cs ++ below ds := List.flatMap_append

theorem below_concat (cs : List (List Char)) (c : List Char) : below (cs ++ [c]) = below cs ++ '/' :: c := by
  simp [below]

@[simp] theorem render_nil : render [] = ['/'] := rfl

@[simp] theorem render_cons (c : List Char) (cs : List (List Char)) : render (c :: cs) = '/' :: (c ++ below cs) := by
  simp [render]

theorem render_concat (cs : List (List Char)) (c : List Char) : render (cs ++ [c]) = below cs ++ '/' :: c := by
  rw [render, if_neg (by simp), below_concat]

theorem render_drop (cs : List (List Char)) : (render cs).drop 1 = (below cs).drop 1 := by
  cases cs <;> simp

theorem length_render_concat_le (cs : List (List Char)) (c : List Char) :
    (render cs).length ≤ (render (cs ++ [c])).length := by
  rw [render_concat]
  cases cs <;> simp

section

variable {c : List Char} {cs : List (List Char)}

theorem IsComponent.takeWhile (hc : IsComponent c) (rest : List Char) :
    (c ++ '/' :: rest).takeWhile (· ≠ '/') = c := by
  have hall : ∀ x ∈ c, decide (x ≠ '/') = true := by
    intro x hx
    have hne : x ≠ '/' := fun h => hc.no_slash (h ▸ hx)
    simpa using hne
  rw [List.takeWhile_append_of_pos hall]
  simp

theorem IsComponent.takeWhile_below (hc : IsComponent c) (cs : List (List Char)) :
    (c ++ below cs).takeWhile (· ≠ '/') = c := by
  cases cs with
  | nil =>
      rw [below_nil, List.append_nil, List.takeWhile_eq_self_iff]
      intro x hx
      have hne : x ≠ '/' := fun h => hc.no_slash (h ▸ hx)
      simpa using hne
  | cons d cs =>
      rw [below_cons]
      exact hc.takeWhile _

theorem IsComponent.dropWhile_below (hc : IsComponent c) (cs : List (List Char)) :
    (c ++ below cs).dropWhile (· ≠ '/') = below cs := by
  have hsplit := List.takeWhile_append_dropWhile (p := fun x => decide (x ≠ '/')) (l := c ++ below cs)
  rw [hc.takeWhile_below] at hsplit
  exact List.append_cancel_left hsplit

theorem IsComponent.dropWhile_slash (hc : IsComponent c) (rest : List Char) :
    (c ++ rest).dropWhile (· = '/') = c ++ rest := by
  cases c with
  | nil => exact absurd rfl hc.ne_nil
  | cons x c =>
      have hx : x ≠ '/' := fun h => hc.no_slash (h ▸ List.mem_cons_self)
      rw [List.cons_append, List.dropWhile_cons_of_neg (by simpa using hx)]

theorem dropWhile_below (hcs : ∀ c ∈ cs, IsComponent c) : (below cs).dropWhile (· = '/') = (below cs).drop 1 := by
  cases cs with
  | nil => rfl
  | cons c cs =>
      rw [below_cons, List.dropWhile_cons_of_pos (by simp), List.drop_one, List.tail_cons]
      exact (hcs c List.mem_cons_self).dropWhile_slash _

/-- Splitting at the slashes gives the components back. -/
theorem splitOn_below {x : List Char} (hx : '/' ∉ x) (hcs : ∀ c ∈ cs, IsComponent c) :
    (x ++ below cs).splitOn '/' = x :: cs := by
  induction cs generalizing x with
  | nil => rw [below_nil, List.append_nil, List.splitOn_eq_singleton hx]
  | cons c cs ih =>
      rw [below_cons, List.splitOn_append_cons_self_of_not_mem hx,
        ih (hcs c List.mem_cons_self).no_slash fun d hd => hcs d (List.mem_cons_of_mem c hd)]

theorem components_render (hcs : ∀ c ∈ cs, IsComponent c) :
    ((render cs).splitOn '/').filter (· ≠ []) = cs := by
  cases cs with
  | nil => decide
  | cons c cs =>
      have hsplit := splitOn_below (x := []) (by simp) hcs
      rw [List.nil_append, below_cons] at hsplit
      rw [render_cons, hsplit, List.filter_cons_of_neg (by simp), List.filter_eq_self]
      intro d hd
      simpa using (hcs d hd).ne_nil

/-! ### Consuming components -/

theorem popScan_concat (pre : List Char) (hc : '/' ∉ c) {k : Nat} (hk : k ≤ c.length) :
    popScan (pre ++ '/' :: c) (pre.length + 1 + k) = pre.length + 1 := by
  induction k with
  | zero =>
      cases pre with
      | nil => rfl
      | cons x pre =>
          have hslash : (x :: pre ++ '/' :: c)[pre.length + 1]? = some '/' := by simp
          rw [List.length_cons, Nat.add_zero, popScan, if_pos hslash]
  | succ k ih =>
      have hlt : k < c.length := by omega
      have hchar : (pre ++ '/' :: c)[pre.length + 1 + k]? = some (c.get ⟨k, hlt⟩) := by
        rw [List.getElem?_append_right (by omega)]
        have hpos : pre.length + 1 + k - pre.length = k + 1 := by omega
        rw [hpos, List.getElem?_cons_succ, List.getElem?_eq_getElem hlt, List.get_eq_getElem]
      have hne : ¬ some (c.get ⟨k, hlt⟩) = some '/' := by
        intro h
        exact hc (Option.some.inj h ▸ List.get_mem c ⟨k, hlt⟩)
      have hlen : pre.length + 1 + (k + 1) = pre.length + k + 2 := by omega
      have hprev : pre.length + k + 1 = pre.length + 1 + k := by omega
      rw [hlen, popScan, hprev, hchar, if_neg hne, ih (by omega)]

theorem pathPopComponent_render (hcs : ∀ c ∈ cs, IsComponent c) : pathPopComponent (render cs) = render cs.dropLast := by
  rcases List.eq_nil_or_concat cs with rfl | ⟨init, c, rfl⟩
  · rfl
  · rw [List.concat_eq_append] at *
    have hc := hcs c (by simp)
    have hlast : (below init ++ '/' :: c)[(below init ++ '/' :: c).length - 1]? ≠ some '/' := by
      rw [← List.getLast?_eq_getElem?, List.getLast?_append_of_ne_nil _ (by simp), List.getLast?_cons_of_ne_nil hc.ne_nil]
      intro h
      exact hc.no_slash (List.mem_of_getLast? h)
    have hlen : (below init ++ '/' :: c).length = (below init).length + 1 + c.length := by
      rw [List.length_append, List.length_cons]
      omega
    have hpos := List.length_pos_iff.mpr hc.ne_nil
    rw [List.dropLast_concat, render_concat, pathPopComponent, if_neg (by omega)]
    simp only [hlast, if_false]
    rw [hlen, popScan_concat _ hc.no_slash (Nat.le_refl _)]
    cases init with
    | nil => rfl
    | cons d init =>
        rw [if_neg (by simp), Nat.add_sub_cancel, List.take_left']
        · rw [render_cons, below_cons]
        · rfl

theorem pathAppendComponent_render (hc : IsComponent c) (hcs : ∀ c ∈ cs, IsComponent c) :
    pathAppendComponent (render cs) c =
      if MAX_PATH_LENGTH ≤ (render (cs ++ [c])).length then none else some (render (cs ++ [c])) := by
  have hout : render cs ++ List.replicate (if render cs = ['/'] then 0 else 1) '/' ++ c = render (cs ++ [c]) := by
    rw [render_concat]
    cases cs with
    | nil => rfl
    | cons d cs =>
        have hroot : render (d :: cs) ≠ ['/'] := by
          intro h
          rw [render_cons] at h
          exact (hcs d List.mem_cons_self).ne_nil (List.append_eq_nil_iff.mp (List.cons.inj h).2).1
        rw [if_neg hroot]
        simp
  rw [pathAppendComponent, if_neg (by simp [hc.ne_nil, hc.ne_dot]), if_neg hc.ne_dots]
  dsimp only
  rw [hout, ← hout]
  simp only [List.length_append, List.length_replicate]

/-- One step of `path_consume_part` on the path of a list of components. -/
def consume (out component : List Char) : Option (List Char) :=
  if MAX_PATH_LENGTH ≤ component.length then none else pathAppendComponent out component

theorem consume_concat (hc : IsComponent c) (hcs : ∀ c ∈ cs, IsComponent c)
    (hlen : (render (cs ++ [c])).length < MAX_PATH_LENGTH) : consume (render cs) c = some (render (cs ++ [c])) := by
  have hshort : c.length < MAX_PATH_LENGTH := by
    rw [render_concat, List.length_append, List.length_cons] at hlen
    omega
  rw [consume, if_neg (by omega), pathAppendComponent_render hc hcs, if_neg (by omega)]

theorem isComponent_concat (hcs : ∀ c ∈ cs, IsComponent c) (hc : IsComponent c) : ∀ d ∈ cs ++ [c], IsComponent d := by
  intro d hd
  rcases List.mem_append.mp hd with hd | hd
  · exact hcs d hd
  · rw [List.mem_singleton.mp hd]
    exact hc

/-- The components are put behind those there are. -/
theorem foldlM_consume {ds : List (List Char)} (hcs : ∀ c ∈ cs, IsComponent c) (hds : ∀ d ∈ ds, IsComponent d)
    (hlen : (render (cs ++ ds)).length < MAX_PATH_LENGTH) :
    ds.foldlM consume (render cs) = some (render (cs ++ ds)) := by
  induction ds generalizing cs with
  | nil => simp
  | cons d ds ih =>
      have hd := hds d List.mem_cons_self
      have happend : cs ++ d :: ds = cs ++ [d] ++ ds := by simp
      rw [happend] at hlen ⊢
      have hle : (render (cs ++ [d])).length ≤ (render (cs ++ [d] ++ ds)).length := by
        rw [render, render, if_neg (by simp), if_neg (by simp), below_append (cs ++ [d]) ds, List.length_append]
        omega
      rw [List.foldlM_cons, consume_concat hd hcs (by omega)]
      exact ih (isComponent_concat hcs hd) (fun e he => hds e (List.mem_cons_of_mem d he)) hlen

/-- A normalised path is left as it is. -/
theorem pathConsumePart_render (hcs : ∀ c ∈ cs, IsComponent c) (hlen : (render cs).length < MAX_PATH_LENGTH) :
    pathConsumePart (render cs) ['/'] = some (render cs) := by
  have hfold : pathConsumePart (render cs) ['/'] = cs.foldlM consume (render []) := by
    rw [pathConsumePart, components_render hcs]
    rfl
  rw [hfold, foldlM_consume (by simp) hcs (by simpa using hlen), List.nil_append]

theorem no_slash_of_mem_splitOn {part x : List Char} (hx : x ∈ part.splitOn '/') : '/' ∉ x := by
  induction part generalizing x with
  | nil =>
      rw [List.splitOn_nil, List.mem_singleton] at hx
      rw [hx]
      exact List.not_mem_nil
  | cons y part ih =>
      rw [List.splitOn_cons_eq_if_modifyHead] at hx
      split at hx
      · rcases List.mem_cons.mp hx with rfl | hx
        · exact List.not_mem_nil
        · exact ih hx
      · rename_i hne
        cases hsplit : part.splitOn '/' with
        | nil => exact absurd hsplit (List.splitOn_ne_nil _ _)
        | cons z rest =>
            rw [hsplit, List.modifyHead_cons] at hx
            rcases List.mem_cons.mp hx with rfl | hx
            · intro hmem
              rcases List.mem_cons.mp hmem with rfl | hmem
              · exact hne (by simp)
              · exact ih (hsplit ▸ List.mem_cons_self) hmem
            · exact ih (hsplit ▸ List.mem_cons_of_mem z hx)

/-- A path as `normalizePath` leaves it. -/
structure Normal (path : List Char) (cs : List (List Char)) : Prop where
  components : ∀ c ∈ cs, IsComponent c
  eq : path = render cs
  short : path.length < MAX_PATH_LENGTH

theorem Normal.root : Normal ['/'] [] := ⟨fun _ hc => absurd hc List.not_mem_nil, rfl, by decide⟩

theorem Normal.dropLast {path : List Char} (h : Normal path cs) : Normal (render cs.dropLast) cs.dropLast := by
  refine ⟨fun c hc => h.components c (List.mem_of_mem_dropLast hc), rfl, ?_⟩
  rcases List.eq_nil_or_concat cs with rfl | ⟨init, c, rfl⟩
  · decide
  · rw [List.concat_eq_append, List.dropLast_concat]
    have hle := length_render_concat_le init c
    have hshort := h.short
    rw [h.eq, List.concat_eq_append] at hshort
    omega

theorem Normal.consume {out out' : List Char} (h : Normal out cs) (hne : c ≠ []) (hslash : '/' ∉ c)
    (hout : consume out c = some out') : ∃ cs', Normal out' cs' := by
  rw [Vfs.consume] at hout
  split at hout
  · cases hout
  · rw [h.eq] at hout
    by_cases hdot : c = ['.']
    · rw [pathAppendComponent, if_pos (Or.inr hdot)] at hout
      obtain rfl := Option.some.inj hout
      exact ⟨cs, h.components, rfl, h.eq ▸ h.short⟩
    · by_cases hdots : c = ['.', '.']
      · rw [pathAppendComponent, if_neg (by simp [hne, hdot]), if_pos hdots,
          pathPopComponent_render h.components] at hout
        obtain rfl := Option.some.inj hout
        exact ⟨_, h.dropLast⟩
      · have hc : IsComponent c := ⟨hne, hdot, hdots, hslash⟩
        rw [pathAppendComponent_render hc h.components] at hout
        split at hout
        · cases hout
        · rename_i hshort
          obtain rfl := Option.some.inj hout
          exact ⟨_, isComponent_concat h.components hc, rfl, by omega⟩

theorem Normal.consumeAll {ds : List (List Char)} {out out' : List Char} (h : Normal out cs)
    (hds : ∀ d ∈ ds, d ≠ [] ∧ '/' ∉ d) (hout : ds.foldlM Vfs.consume out = some out') : ∃ cs', Normal out' cs' := by
  induction ds generalizing out cs with
  | nil =>
      obtain rfl := Option.some.inj hout
      exact ⟨cs, h⟩
  | cons d ds ih =>
      rw [List.foldlM_cons] at hout
      obtain ⟨out₁, hd, hrest⟩ := Option.bind_eq_some_iff.mp hout
      obtain ⟨hne, hslash⟩ := hds d List.mem_cons_self
      obtain ⟨cs₁, h₁⟩ := h.consume hne hslash hd
      exact ih h₁ (fun e he => hds e (List.mem_cons_of_mem d he)) hrest

theorem Normal.consumePart {part out out' : List Char} (h : Normal out cs) (hout : pathConsumePart part out = some out') :
    ∃ cs', Normal out' cs' := by
  refine @Normal.consumeAll cs ((part.splitOn '/').filter (· ≠ [])) out out' h ?_ hout
  intro d hd
  obtain ⟨hd, hne⟩ := List.mem_filter.mp hd
  exact ⟨by simpa using hne, no_slash_of_mem_splitOn hd⟩

end

/-! ### `normalizePath` and `splitPath` -/

variable {cwd path normalized : List Char} {cs : List (List Char)}

theorem normalizePath_normal (h : normalizePath cwd path = some normalized) :
    cwd.length < MAX_PATH_LENGTH ∧ ∃ cs, Normal normalized cs := by
  rw [normalizePath] at h
  split at h
  · rename_i hpath hcwd
    have hshort : cwd.length < MAX_PATH_LENGTH := by
      rw [pathLength] at hcwd
      split at hcwd
      · assumption
      · cases hcwd
    refine ⟨hshort, ?_⟩
    split_ifs at h
    · exact Normal.root.consumePart h
    · exact Normal.root.consumePart h
    · obtain ⟨out, hfirst, hrest⟩ := Option.bind_eq_some_iff.mp h
      obtain ⟨cs, hcs⟩ := Normal.root.consumePart hfirst
      exact hcs.consumePart hrest
  · cases h

/-- The calls that are given a normalised path normalise it again. -/
theorem Normal.normalizePath (h : Normal normalized cs) (hcwd : cwd.length < MAX_PATH_LENGTH) :
    normalizePath cwd normalized = some normalized := by
  have hhead : normalized.head? = some '/' := by
    rw [h.eq]
    cases cs <;> simp
  have hconsume := pathConsumePart_render h.components (h.eq ▸ h.short)
  rw [Vfs.normalizePath, pathLength, pathLength, if_pos h.short, if_pos hcwd]
  simp only [hhead, if_true]
  rw [h.eq]
  exact hconsume

theorem Normal.splitNormalized (h : Normal normalized cs) (hne : cs ≠ []) :
    splitNormalized normalized = some (render cs.dropLast, cs.getLast hne) := by
  rcases List.eq_nil_or_concat cs with rfl | ⟨init, c, rfl⟩
  · exact absurd rfl hne
  · obtain ⟨hcs, rfl, hshort⟩ := h
    simp only [List.concat_eq_append] at *
    have hc := hcs c (by simp)
    have hlen : (below init ++ '/' :: c).length = (below init).length + 1 + c.length := by
      rw [List.length_append, List.length_cons]
      omega
    have hname : ((below init ++ '/' :: c).reverse.takeWhile (· ≠ '/')).reverse = c := by
      have hrev : (below init ++ '/' :: c).reverse = c.reverse ++ '/' :: (below init).reverse := by simp
      have hc' : ∀ x ∈ c.reverse, decide (x ≠ '/') = true := by
        intro x hx
        have hne : x ≠ '/' := fun h => hc.no_slash (h ▸ List.mem_reverse.mp hx)
        simpa using hne
      rw [hrev, List.takeWhile_append_of_pos hc']
      simp
    have hpos := List.length_pos_iff.mpr hc.ne_nil
    have hslash : (below init).length + 1 + c.length - c.length - 1 = (below init).length := by omega
    have hfits : ¬ (c = [] ∨ MAX_PATH_LENGTH ≤ c.length) := by
      rw [render_concat] at hshort
      rintro (hnil | hlong)
      · exact hc.ne_nil hnil
      · omega
    rw [render_concat, Vfs.splitNormalized, if_neg (by omega)]
    dsimp only
    rw [hname, hlen, hslash, if_neg hfits]
    simp only [List.dropLast_concat, List.getLast_concat, List.take_left]
    cases init with
    | nil => rfl
    | cons d init => simp

theorem splitNormalized_root : splitNormalized ['/'] = none := by decide

/-! ### `path_resolve_fs` -/

/-- The name of the directory of the mounted volumes. -/
def mnt : List Char := ['m', 'n', 't']

/-- The slot of a mounted volume of that name. -/
def mountedSlot (fs_table : FsTable) (name : List Char) : Option (Fin MAX_DISK_COUNT) :=
  mountSlots.find? fun i => (fs_table i).inuse && (fs_table i).disk_name = name

theorem mountedSlot_ne_zero {fs_table : FsTable} {name : List Char} {i : Fin MAX_DISK_COUNT}
    (h : mountedSlot fs_table name = some i) : i ≠ 0 := by
  have hmem := List.mem_of_find?_eq_some h
  rintro rfl
  exact absurd hmem (by decide)

theorem pathNextComponent_below {c : List Char} (hc : IsComponent c) (hlen : c.length < MAX_PATH_LENGTH) :
    pathNextComponent (c ++ below cs) = .next c (below cs) := by
  have hne : c ++ below cs ≠ [] := fun h => hc.ne_nil (List.append_eq_nil_iff.mp h).1
  rw [pathNextComponent]
  simp only [hc.dropWhile_slash, hne, if_false, hc.takeWhile_below, hc.dropWhile_below]
  rw [if_neg (by omega)]

theorem pathIsMntPrefix_iff (h : Normal normalized cs) : pathIsMntPrefix normalized = true ↔ cs.head? = some mnt := by
  rw [h.eq]
  cases cs with
  | nil => decide
  | cons c cs =>
      have hc := h.components c List.mem_cons_self
      rw [render_cons, List.head?_cons, Option.some_inj, pathIsMntPrefix, Bool.and_eq_true, Bool.or_eq_true,
        decide_eq_true_iff, decide_eq_true_iff, decide_eq_true_iff, List.take_succ_cons, List.getElem?_cons_succ]
      constructor
      · rintro ⟨htake, hnext⟩
        have hsplit : c ++ below cs = mnt ++ (c ++ below cs).drop 3 := by
          conv_lhs => rw [← List.take_append_drop 3 (c ++ below cs)]
          rw [(List.cons.inj htake).2]
          rfl
        have hrest : ((c ++ below cs).drop 3).takeWhile (· ≠ '/') = [] := by
          rw [← List.head?_drop] at hnext
          cases hdrop : (c ++ below cs).drop 3 with
          | nil => rfl
          | cons x rest =>
              rw [hdrop, List.head?_cons] at hnext
              rcases hnext with hslash | hnone
              · rw [Option.some.inj hslash]
                rfl
              · cases hnone
        have hwhile := hc.takeWhile_below cs
        rw [hsplit, List.takeWhile_append_of_pos (by simp [mnt]), hrest, List.append_nil] at hwhile
        exact hwhile.symm
      · rintro rfl
        cases cs with
        | nil => decide
        | cons d cs => simp [mnt]

/-- `/mnt` and everything outside of it is in slot 0. -/
theorem Normal.resolve_outside {fs_table : FsTable} (h : Normal normalized cs) (hcs : cs.head? ≠ some mnt ∨ cs = [mnt]) :
    pathResolveFs fs_table normalized = some (0, (below cs).drop 1) := by
  have hfirst : pathIsMntPrefix normalized = false ∨ normalized.length = 4 := by
    rcases hcs with hcs | rfl
    · left
      rw [Bool.eq_false_iff]
      exact fun hmnt => hcs ((pathIsMntPrefix_iff h).mp hmnt)
    · right
      rw [h.eq]
      rfl
  rw [pathResolveFs, if_pos hfirst, h.eq, render_drop]

/-- What is below `/mnt/name` is in the volume of that name. -/
theorem Normal.resolve_mounted {fs_table : FsTable} {name : List Char} (h : Normal normalized (mnt :: name :: cs)) :
    pathResolveFs fs_table normalized = (mountedSlot fs_table name).map fun i => (i, (below cs).drop 1) := by
  have hname := h.components name (by simp)
  have hmnt : pathIsMntPrefix normalized = true := (pathIsMntPrefix_iff h).mpr rfl
  have hlen := h.short
  rw [h.eq] at hmnt hlen ⊢
  have hdrop : (render (mnt :: name :: cs)).drop 5 = name ++ below cs := rfl
  have hlong : (render (mnt :: name :: cs)).length = 5 + name.length + (below cs).length := by
    simp [mnt]
    omega
  have hpos := List.length_pos_iff.mpr hname.ne_nil
  have hsecond : ¬ (pathIsMntPrefix (render (mnt :: name :: cs)) = false ∨
      (render (mnt :: name :: cs)).length = 4) := by
    rintro (hfalse | hshort)
    · rw [hmnt] at hfalse
      cases hfalse
    · omega
  rw [pathResolveFs, if_neg hsecond, hdrop, pathNextComponent_below hname (by omega)]
  dsimp only
  rw [mountedSlot, dropWhile_below fun d hd => h.components d (by simp [hd])]
  cases mountSlots.find? fun i => (fs_table i).inuse && (fs_table i).disk_name = name <;> rfl

/-- The root of a volume other than that of slot 0 is the directory of its name in `/mnt`. -/
theorem Normal.volume_root {fs_table : FsTable} {i : Fin MAX_DISK_COUNT} (h : Normal normalized cs)
    (hres : pathResolveFs fs_table normalized = some (i, [])) (hi : i ≠ 0) : ∃ name, cs = [mnt, name] := by
  by_cases houtside : cs.head? ≠ some mnt ∨ cs = [mnt]
  · rw [h.resolve_outside houtside] at hres
    exact absurd (Prod.mk.inj (Option.some.inj hres)).1.symm hi
  · rw [not_or, not_not] at houtside
    obtain ⟨hhead, hne⟩ := houtside
    match cs, h, hhead, hne with
    | [c], _, hhead, hne => exact absurd (congrArg (fun c => [c]) (Option.some.inj hhead)) hne
    | [c, name], _, hhead, _ =>
        obtain rfl := Option.some.inj hhead
        exact ⟨name, rfl⟩
    | c :: name :: d :: rest, h, hhead, _ =>
        obtain rfl := Option.some.inj hhead
        rw [h.resolve_mounted] at hres
        obtain ⟨j, -, hj⟩ := Option.map_eq_some_iff.mp hres
        have hnil : d ++ below rest = [] := by simpa using (Prod.mk.inj hj).2
        exact absurd (List.append_eq_nil_iff.mp hnil).1 (h.components d (by simp)).ne_nil

/-- The parent of any other path is in the volume of the path. -/
theorem Normal.resolve_parent {fs_table : FsTable} {i : Fin MAX_DISK_COUNT} {rest : List Char} (h : Normal normalized cs)
    (hne : cs ≠ []) (hres : pathResolveFs fs_table normalized = some (i, rest)) (hroot : ¬ (rest = [] ∧ i ≠ 0)) :
    ∃ rest', pathResolveFs fs_table (render cs.dropLast) = some (i, rest') := by
  by_cases houtside : cs.head? ≠ some mnt ∨ cs = [mnt]
  · rw [h.resolve_outside houtside] at hres
    rw [← (Prod.mk.inj (Option.some.inj hres)).1]
    refine ⟨_, h.dropLast.resolve_outside ?_⟩
    left
    match cs, hne, houtside with
    | [c], _, _ => exact nofun
    | c :: d :: rest, _, houtside =>
        rcases houtside with hhead | hmnt
        · rwa [List.dropLast_cons_of_ne_nil (List.cons_ne_nil d rest), List.head?_cons]
        · cases hmnt
  · rw [not_or, not_not] at houtside
    obtain ⟨hhead, hmnt⟩ := houtside
    match cs, h, hhead, hmnt with
    | [c], _, hhead, hmnt => exact absurd (congrArg (fun c => [c]) (Option.some.inj hhead)) hmnt
    | [c, name], h, hhead, _ =>
        obtain rfl := Option.some.inj hhead
        rw [h.resolve_mounted] at hres
        obtain ⟨j, hslot, hj⟩ := Option.map_eq_some_iff.mp hres
        obtain ⟨rfl, hnil⟩ := Prod.mk.inj hj
        exact absurd ⟨hnil.symm, mountedSlot_ne_zero hslot⟩ hroot
    | c :: name :: d :: rest, h, hhead, _ =>
        obtain rfl := Option.some.inj hhead
        rw [h.resolve_mounted] at hres
        obtain ⟨j, hslot, hj⟩ := Option.map_eq_some_iff.mp hres
        have hparent : (mnt :: name :: d :: rest).dropLast = mnt :: name :: (d :: rest).dropLast := rfl
        have hnormal := h.dropLast
        rw [hparent] at hnormal ⊢
        rw [hnormal.resolve_mounted, hslot, ← (Prod.mk.inj hj).1]
        exact ⟨_, rfl⟩

end SysuOs.Vfs
