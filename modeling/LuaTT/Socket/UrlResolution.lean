import LuaTT.Socket.UrlText

/-! URLs relative to others. The substitutions that are made over and over until none changes the path give what
one pass with a stack gives; in it a leading slash counts as a directory, and can be lost. -/
namespace LuaTT.Url
open Lua Http
set_option autoImplicit false

/-! ## One pass -/

abbrev up : Bytes := [46, 46]

/-- A directory goes on the stack, and `..` takes one from it. -/
def descend (stack : List Bytes) (s : Bytes) : List Bytes :=
  match stack with
  | t :: below => if s = up ∧ t ≠ up then below else s :: t :: below
  | [] => [s]

def resolved (dirs : List Bytes) : List Bytes := (dirs.foldl descend []).reverse

theorem descend_plain {s : Bytes} (hs : s ≠ up) (stack : List Bytes) : descend stack s = s :: stack := by
  cases stack with
  | nil => rfl
  | cons t below => exact if_neg fun h => hs h.1

theorem descend_up {t : Bytes} (ht : t ≠ up) (below : List Bytes) : descend (t :: below) up = below :=
  if_pos ⟨rfl, ht⟩

theorem reducePass_ups (rest : List Bytes) : reducePass (up :: up :: rest) = up :: up :: reducePass rest := by
  rw [reducePass, if_pos rfl, if_pos rfl]

theorem reducePass_up {s : Bytes} (hs : s ≠ up) (rest : List Bytes) : reducePass (s :: up :: rest) = reducePass rest := by
  rw [reducePass, if_pos rfl, if_neg hs]

theorem reducePass_keep (s : Bytes) {t : Bytes} (ht : t ≠ up) (rest : List Bytes) :
    reducePass (s :: t :: rest) = s :: reducePass (t :: rest) := by
  rw [reducePass, if_neg ht]

/-- A substitution changes nothing for the stack. -/
theorem foldl_reducePass (dirs stack : List Bytes) :
    (reducePass dirs).foldl descend stack = dirs.foldl descend stack := by
  induction dirs using reducePass.induct generalizing stack with
  | case1 rest ih =>
    rw [reducePass_ups]
    exact ih _
  | case2 s rest hs ih =>
    rw [reducePass_up hs, List.foldl_cons, List.foldl_cons, descend_plain hs, descend_up hs]
    exact ih stack
  | case3 s t rest ht ih =>
    rw [reducePass_keep s ht]
    exact ih _
  | case4 dirs hdirs => rw [reducePass.eq_2 dirs hdirs]

theorem reducePass_length (dirs : List Bytes) : reducePass dirs = dirs ∨ (reducePass dirs).length < dirs.length := by
  induction dirs using reducePass.induct with
  | case1 rest ih =>
    rw [reducePass_ups]
    obtain ih | ih := ih
    · exact .inl (by rw [ih])
    · exact .inr (Nat.add_lt_add_right ih 2)
  | case2 s rest hs ih =>
    rw [reducePass_up hs, List.length_cons, List.length_cons]
    obtain ih | ih := ih
    · exact .inr (by rw [ih]; omega)
    · exact .inr (by omega)
  | case3 s t rest ht ih =>
    rw [reducePass_keep s ht]
    obtain ih | ih := ih
    · exact .inl (by rw [ih])
    · exact .inr (Nat.add_lt_add_right ih 1)
  | case4 dirs hdirs => exact .inl (reducePass.eq_2 dirs hdirs)

/-- A `..` stands only behind another, or at the beginning. -/
def Reduced (dirs : List Bytes) : Prop := dirs.IsChain fun s t => t = up → s = up

theorem reduced_of_pass {dirs : List Bytes} (h : reducePass dirs = dirs) : Reduced dirs := by
  induction dirs using reducePass.induct with
  | case1 rest ih =>
    rw [reducePass_ups] at h
    have hrest := ih (List.tail_eq_of_cons_eq (List.tail_eq_of_cons_eq h))
    exact List.isChain_cons_cons.mpr ⟨fun _ => rfl, List.isChain_cons.mpr ⟨fun _ _ _ => rfl, hrest⟩⟩
  | case2 s rest hs ih =>
    rw [reducePass_up hs] at h
    have hlength := congrArg List.length h
    rw [List.length_cons, List.length_cons] at hlength
    obtain hsame | hless := reducePass_length rest
    · rw [hsame] at hlength
      omega
    · omega
  | case3 s t rest ht ih =>
    rw [reducePass_keep s ht] at h
    exact List.isChain_cons_cons.mpr ⟨fun h => absurd h ht, ih (List.tail_eq_of_cons_eq h)⟩
  | case4 dirs hdirs =>
    cases dirs with
    | nil => exact .nil
    | cons s dirs =>
      cases dirs with
      | nil => exact .singleton s
      | cons t rest => exact (hdirs s t rest rfl).elim

/-- Where nothing more can be substituted, the stack holds the path as it is. -/
theorem foldl_reduced {dirs stack : List Bytes} (h : Reduced dirs)
    (hstack : ∀ s ∈ dirs.head?, ∀ t ∈ stack.head?, s = up → t = up) :
    dirs.foldl descend stack = dirs.reverse ++ stack := by
  induction dirs generalizing stack with
  | nil => rfl
  | cons s dirs ih =>
    have hpush : descend stack s = s :: stack := by
      cases stack with
      | nil => rfl
      | cons t below => exact if_neg fun hs => hs.2 (hstack s rfl t rfl hs.1)
    rw [List.foldl_cons, hpush, List.reverse_cons, List.append_assoc]
    refine ih h.tail fun u hu t ht => ?_
    obtain rfl : s = t := Option.some_inj.mp ht
    exact (List.isChain_cons.mp h).1 u hu

theorem reduceLoop_resolved {fuel : ℕ} {dirs : List Bytes} (hfuel : dirs.length < fuel) :
    reduceLoop fuel dirs = some (resolved dirs) := by
  induction fuel generalizing dirs with
  | zero => exact absurd hfuel (Nat.not_lt_zero _)
  | succ fuel ih =>
    unfold reduceLoop
    split
    next hsame =>
      have hfold : dirs.foldl descend [] = dirs.reverse ++ [] :=
        foldl_reduced (reduced_of_pass hsame) fun _ _ _ ht => nomatch ht
      rw [resolved, hfold, List.append_nil, List.reverse_reverse]
    next hchange =>
      have hless := (reducePass_length dirs).resolve_left hchange
      rw [ih (by omega), resolved, foldl_reducePass]
      rfl

/-- The loop ends after at most as many passes as there are directories, and one more. -/
theorem absolutePath_resolved {fuel : ℕ} {basePath relativePath : Bytes} (hrelative : relativePath.head? ≠ some 47)
    (hfuel : (directories basePath).length + (directories relativePath).length < fuel) :
    let path := dropDots (directories basePath ++ directories relativePath) (lastPiece relativePath)
    absolutePath fuel basePath relativePath = some (finishPath (resolved path.1) path.2) := by
  intro path
  have hlength : path.1.length < fuel := by
    have hfilter := List.length_filter_le (fun d : Bytes => decide (d ≠ [46])) (directories basePath ++ directories relativePath)
    rw [List.length_append] at hfilter
    exact Nat.lt_of_le_of_lt hfilter hfuel
  show (if relativePath.head? = some 47 then some relativePath else
    (reduceLoop fuel path.1).map fun dirs => finishPath dirs path.2) = _
  rw [if_neg hrelative, reduceLoop_resolved hlength]
  rfl

theorem absolutePath_resolved_up : absolutePath 4 [47, 97, 47, 98] [46, 46, 47, 99] = some [47, 99] := by
  have hresolved := @absolutePath_resolved 4 [47, 97, 47, 98] [46, 46, 47, 99] (by decide) (by decide)
  exact hresolved.trans (by decide)

/-! ## One directory too many -/

/-- Directories, each with its slash. -/
def slashed (dirs : List Bytes) : Bytes := dirs.flatMap (· ++ [47])

theorem pieces_slashed {dirs : List Bytes} (hdirs : ∀ d ∈ dirs, (47 : UInt8) ∉ d) {last : Bytes}
    (hlast : (47 : UInt8) ∉ last) : pieces (slashed dirs ++ last) = dirs ++ [last] := by
  induction dirs with
  | nil => exact pieces_plain hlast
  | cons d dirs ih =>
    have htext : slashed (d :: dirs) ++ last = d ++ 47 :: (slashed dirs ++ last) := by
      rw [slashed, List.flatMap_cons, List.append_assoc, List.append_assoc]
      rfl
    rw [htext, pieces_append (hdirs d List.mem_cons_self), ih fun x hx => hdirs x (List.mem_cons_of_mem _ hx)]
    rfl

theorem foldl_plain {dirs : List Bytes} (hdirs : ∀ d ∈ dirs, d ≠ up) (stack : List Bytes) :
    dirs.foldl descend stack = dirs.reverse ++ stack := by
  induction dirs generalizing stack with
  | nil => rfl
  | cons d dirs ih =>
    rw [List.foldl_cons, descend_plain (hdirs d List.mem_cons_self),
      ih fun x hx => hdirs x (List.mem_cons_of_mem _ hx), List.reverse_cons, List.append_assoc]
    rfl

theorem foldl_ups {dropped : List Bytes} (hdropped : ∀ d ∈ dropped, d ≠ up) (stack : List Bytes) :
    (List.replicate dropped.length up).foldl descend (dropped ++ stack) = stack := by
  induction dropped with
  | nil => rfl
  | cons d dropped ih =>
    rw [List.length_cons, List.replicate_succ, List.foldl_cons, List.cons_append,
      descend_up (hdropped d List.mem_cons_self)]
    exact ih fun x hx => hdropped x (List.mem_cons_of_mem _ hx)

/-- Each `..` takes one directory away. -/
theorem resolved_ups {kept dropped : List Bytes} (hdirs : ∀ d ∈ kept ++ dropped, d ≠ up) :
    resolved (kept ++ dropped ++ List.replicate dropped.length up) = kept := by
  have hdropped : ∀ d ∈ dropped.reverse, d ≠ up :=
    fun d hd => hdirs d (List.mem_append_right _ (List.mem_reverse.mp hd))
  rw [resolved, List.foldl_append, foldl_plain hdirs, List.append_nil, List.reverse_append, ← List.length_reverse,
    foldl_ups hdropped, List.reverse_reverse]

/-- A name as a path may hold it, that is not one of the two special ones. -/
def IsName (s : Bytes) : Prop := (∀ c ∈ s, ¬IsEnd c) ∧ s ≠ [46] ∧ s ≠ up

theorem slash_not_mem {s : Bytes} (hs : ∀ c ∈ s, ¬IsEnd c) : (47 : UInt8) ∉ s := fun h => hs 47 h (.inl rfl)

theorem directories_slashed {dirs : List Bytes} (hdirs : ∀ d ∈ dirs, (47 : UInt8) ∉ d) {last : Bytes}
    (hlast : (47 : UInt8) ∉ last) :
    directories (slashed dirs ++ last) = dirs ∧ lastPiece (slashed dirs ++ last) = last := by
  rw [directories, lastPiece, pieces_slashed hdirs hlast, List.dropLast_concat, List.getLastD_concat]
  exact ⟨rfl, rfl⟩

theorem ups_head {dropped : List Bytes} (hdropped : dropped ≠ []) (name : Bytes) :
    (slashed (List.replicate dropped.length up) ++ name).head? = some 46 := by
  obtain ⟨d, dropped, rfl⟩ := List.exists_cons_of_ne_nil hdropped
  rfl

theorem absolutePath_ups {fuel : ℕ} {kept dropped : List Bytes} {file name : Bytes}
    (hdirs : ∀ d ∈ kept ++ dropped, IsName d) (hfile : ∀ c ∈ file, ¬IsEnd c) (hname : IsName name)
    (hdropped : dropped ≠ []) (hfuel : kept.length + 2 * dropped.length < fuel) :
    absolutePath fuel (slashed (kept ++ dropped) ++ file) (slashed (List.replicate dropped.length up) ++ name) =
      some (slashed kept ++ name) := by
  have hups : ∀ d ∈ List.replicate dropped.length up, (47 : UInt8) ∉ d := by
    intro d hd
    rw [List.eq_of_mem_replicate hd]
    decide
  obtain ⟨hbase, -⟩ := directories_slashed (fun d hd => slash_not_mem (hdirs d hd).1) (slash_not_mem hfile)
  obtain ⟨hrelative, hlast⟩ := directories_slashed hups (slash_not_mem hname.1)
  have hfilter : (kept ++ dropped ++ List.replicate dropped.length up).filter (· ≠ [46]) =
      kept ++ dropped ++ List.replicate dropped.length up := by
    refine List.filter_eq_self.mpr fun d hd => ?_
    obtain hd | hd := List.mem_append.mp hd
    · exact decide_eq_true (hdirs d hd).2.1
    · rw [List.eq_of_mem_replicate hd]
      rfl
  have hkept : resolved (kept ++ dropped ++ List.replicate dropped.length up) = kept :=
    resolved_ups fun d hd => (hdirs d hd).2.2
  have hstart : (slashed (List.replicate dropped.length up) ++ name).head? ≠ some 47 := by
    rw [ups_head hdropped]
    decide
  have henough : (directories (slashed (kept ++ dropped) ++ file)).length +
      (directories (slashed (List.replicate dropped.length up) ++ name)).length < fuel := by
    rw [hbase, hrelative, List.length_append, List.length_replicate]
    omega
  rw [absolutePath_resolved hstart henough, hbase, hrelative, hlast, dropDots, hfilter, hkept,
    if_neg fun h => hname.2.1 h.1, finishPath, if_neg fun h => hname.2.2 h.1]
  rfl

/-- A scheme, an authority and a path. -/
def located (scheme authority path : Bytes) : Bytes := scheme ++ 58 :: 47 :: 47 :: (authority ++ path)

/-- A URL without parameters, query and fragment. -/
def bare (scheme authority : Option Bytes) (path : Bytes) : Parts := ⟨scheme, authority, path, none, none, none⟩

theorem bare_textPath (scheme authority : Option Bytes) (path : Bytes) : (bare scheme authority path).textPath = path :=
  List.append_nil path

theorem bare_textQuery (scheme authority : Option Bytes) (path : Bytes) : (bare scheme authority path).textQuery = path :=
  (List.append_nil _).trans (bare_textPath scheme authority path)

theorem located_text (scheme authority path : Bytes) :
    (bare (some scheme) (some authority) path).text = located scheme authority path := by
  rw [Parts.text, Parts.textScheme, Parts.textAuthority, bare_textQuery]
  exact List.append_nil _

/-- The bytes of a path without what ends it. -/
def IsPath (path : Bytes) : Prop := ∀ c ∈ path, c = 47 ∨ ¬IsEnd c

theorem IsPath.not_mem {path : Bytes} (hpath : IsPath path) {c : UInt8} (hc : IsEnd c) (hslash : c ≠ 47) : c ∉ path :=
  fun hmem => (hpath c hmem).elim hslash fun h => h hc

theorem slashed_isPath {dirs : List Bytes} (hdirs : ∀ d ∈ dirs, ∀ c ∈ d, ¬IsEnd c) {last : Bytes}
    (hlast : ∀ c ∈ last, ¬IsEnd c) : IsPath (slashed dirs ++ last) := by
  intro c hc
  obtain hc | hc := List.mem_append.mp hc
  · obtain ⟨d, hd, hc⟩ := List.mem_flatMap.mp hc
    obtain hc | hc := List.mem_append.mp hc
    · exact .inr (hdirs d hd c hc)
    · exact .inl (List.mem_singleton.mp hc)
  · exact .inr (hlast c hc)

theorem located_proper {scheme authority path : Bytes} (hscheme : IsScheme scheme)
    (hauthority : (47 : UInt8) ∉ authority ∧ (35 : UInt8) ∉ authority) (hpath : IsPath path)
    (hslash : path.head? = some 47) : (bare (some scheme) (some authority) path).Proper where
  fragment := by
    have hhash : (35 : UInt8) ∉ scheme := fun h => absurd (hscheme.2 35 h) (by decide)
    have hend : (35 : UInt8) ∉ path := hpath.not_mem (.inr (.inr (.inr rfl))) (by decide)
    show (35 : UInt8) ∉ scheme ++ 58 :: 47 :: 47 :: (authority ++ (bare (some scheme) (some authority) path).textQuery)
    rw [bare_textQuery]
    simp [hhash, hauthority.2, hend]
  scheme := fun s hs => Option.some_inj.mp hs ▸ hscheme
  noScheme := nofun
  authority := by
    intro a ha
    rw [bare_textQuery, hslash]
    exact ⟨Option.some_inj.mp ha ▸ hauthority.1, fun c hc => (Option.some_inj.mp hc).symm⟩
  noAuthority := nofun
  query := by
    rw [bare_textPath]
    exact hpath.not_mem (.inr (.inl rfl)) (by decide)
  params := hpath.not_mem (.inr (.inr (.inl rfl))) (by decide)

theorem relative_proper {path : Bytes} (hpath : IsPath path) (hdot : path.head? = some 46) :
    (bare none none path).Proper where
  fragment := by
    show (35 : UInt8) ∉ (bare none none path).textQuery
    rw [bare_textQuery]
    exact hpath.not_mem (.inr (.inr (.inr rfl))) (by decide)
  scheme := nofun
  noScheme := by
    intro _ h
    have hhead := h.head
    change (bare none none path).textQuery.head?.any isalnum = true at hhead
    rw [bare_textQuery, hdot] at hhead
    exact absurd hhead (by decide)
  authority := nofun
  noAuthority := by
    rintro - ⟨rest, hrest⟩
    rw [bare_textQuery] at hrest
    rw [← hrest] at hdot
    exact absurd (Option.some_inj.mp hdot) (by decide)
  query := by
    rw [bare_textPath]
    exact hpath.not_mem (.inr (.inl rfl)) (by decide)
  params := hpath.not_mem (.inr (.inr (.inl rfl))) (by decide)

theorem parse_text {u : Parts} (hu : u.Proper) (hne : u.text ≠ []) : parse u.text {} = some u.parsed := by
  rw [parse_eq hne, split_text hu]

theorem parse_located {scheme authority path : Bytes} (hscheme : IsScheme scheme)
    (hauthority : (47 : UInt8) ∉ authority ∧ (35 : UInt8) ∉ authority) (hpath : IsPath path)
    (hslash : path.head? = some 47) : ∃ p, parse (located scheme authority path) {} = some p ∧
      p.scheme = some scheme ∧ p.authority = some authority ∧ p.path = some path := by
  have hne : (bare (some scheme) (some authority) path).text ≠ [] := by
    rw [located_text]
    exact List.append_ne_nil_of_right_ne_nil _ (List.cons_ne_nil _ _)
  have hparse := parse_text (located_proper hscheme hauthority hpath hslash) hne
  have hpath : path ≠ [] := by
    rintro rfl
    cases hslash
  rw [located_text] at hparse
  obtain ⟨hscheme', hauthority', hpath', -⟩ := (bare (some scheme) (some authority) path).parsed_fields
  exact ⟨_, hparse, hscheme', hauthority', hpath'.trans (if_neg hpath)⟩

theorem parse_bare_relative {path : Bytes} (hpath : IsPath path) (hdot : path.head? = some 46) :
    parse path {} = some { path := some path } := by
  have hne : path ≠ [] := by
    rintro rfl
    cases hdot
  have htext : (bare none none path).text = path := (List.append_nil _).trans (bare_textQuery none none path)
  have hparse := parse_text (relative_proper hpath hdot) (htext.symm ▸ hne)
  have hparsed : (bare none none path).parsed = { path := if path = [] then none else some path } := rfl
  rw [htext, hparsed, if_neg hne] at hparse
  exact hparse

theorem inherit_path (fuel : ℕ) (base : Parsed) (path : Bytes) : inherit fuel base { path := some path } =
    (absolutePath fuel (base.path.getD []) path).map fun path =>
      { scheme := base.scheme, authority := base.authority, path := some path } := rfl

theorem build_located (scheme authority path : Bytes) :
    build { scheme := some scheme, authority := some authority, path := some path } =
      located scheme authority (normal path) := by
  show scheme ++ 58 :: 47 :: 47 :: (authority ++ (normal path ++ [] ++ [])) ++ [] = _
  simp only [List.append_nil]
  rfl

/-- Each `..` of a relative URL takes one directory of the base away. The slash behind the authority counts as
one: when it goes, the name stands directly behind the host name. The base is without parameters, query and
fragment. -/
theorem absolute_ups {fuel : ℕ} {scheme authority : Bytes} {above kept dropped : List Bytes} {file name : Bytes}
    (hscheme : IsScheme scheme) (hauthority : (47 : UInt8) ∉ authority ∧ (35 : UInt8) ∉ authority)
    (hdirs : ∀ d ∈ kept ++ dropped, IsName d) (hroot : kept ++ dropped = [] :: above)
    (hfile : ∀ c ∈ file, ¬IsEnd c) (hname : IsName name) (hdropped : dropped ≠ [])
    (hfuel : kept.length + 2 * dropped.length < fuel) :
    absolute fuel (.text (located scheme authority (slashed (kept ++ dropped) ++ file)))
      (slashed (List.replicate dropped.length up) ++ name) =
        some (located scheme authority (normal (slashed kept ++ name))) := by
  have hups : ∀ d ∈ List.replicate dropped.length up, ∀ c ∈ d, ¬IsEnd c := by
    intro d hd c hc
    rw [List.eq_of_mem_replicate hd] at hc
    obtain rfl : c = 46 := by simpa using hc
    unfold IsEnd
    decide
  have hpath := absolutePath_ups hdirs hfile hname hdropped hfuel
  have hrelative := parse_bare_relative (slashed_isPath hups hname.1) (ups_head hdropped name)
  have hslash : (slashed (kept ++ dropped) ++ file).head? = some 47 := by
    rw [hroot]
    rfl
  obtain ⟨p, hbase, hscheme', hauthority', hpath'⟩ :=
    parse_located hscheme hauthority (slashed_isPath (fun d hd => (hdirs d hd).1) hfile) hslash
  have hparsed : Base.parsed (.text (located scheme authority (slashed (kept ++ dropped) ++ file))) = some p := hbase
  rw [absolute, hparsed, hrelative]
  show (inherit fuel p { path := some (slashed (List.replicate dropped.length up) ++ name) }).map build = _
  rw [inherit_path, hpath', Option.getD_some, hpath, hscheme', hauthority']
  exact congrArg some (build_located scheme authority (slashed kept ++ name))

/-- Relative to `s://h/b`, the URL `../x` is `s://hx`. -/
theorem absolute_ups_host :
    absolute 3 (.text [115, 58, 47, 47, 104, 47, 98]) [46, 46, 47, 120] = some [115, 58, 47, 47, 104, 120] := by
  have hname : ∀ c ∈ [(120 : UInt8)], ¬IsEnd c := by
    intro c hc
    obtain rfl := List.mem_singleton.mp hc
    unfold IsEnd
    decide
  have hfile : ∀ c ∈ [(98 : UInt8)], ¬IsEnd c := by
    intro c hc
    obtain rfl := List.mem_singleton.mp hc
    unfold IsEnd
    decide
  have hroot : ∀ d ∈ [] ++ [([] : Bytes)], IsName d := by
    intro d hd
    obtain rfl := List.mem_singleton.mp hd
    exact ⟨nofun, by decide, by decide⟩
  have hscheme : IsScheme [115] := by
    refine ⟨rfl, fun c hc => ?_⟩
    obtain rfl := List.mem_singleton.mp hc
    rfl
  exact @absolute_ups 3 [115] [104] [] [] [[]] [98] [120] hscheme (by decide) hroot rfl hfile
    ⟨hname, by decide, by decide⟩ (by decide) (by decide)

end LuaTT.Url
