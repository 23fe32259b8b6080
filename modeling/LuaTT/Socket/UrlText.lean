import LuaTT.Socket.Url

/-! What is read from a URL can be written again: the parts of a URL put together are the URL, and the URL that is
built from parsed parts has these parts, but for the form of the path. -/
namespace LuaTT.Url
open Lua Http
set_option autoImplicit false

/-! ## Escaped characters -/

theorem hexDigit_spec : ∀ d < 16, ljCharIsxdigit (hexDigit d) = true ∧ isWord (hexDigit d) = true := by
  decide

theorem tonumber16_pair : ∀ h < 16, ∀ l < 16, tonumber16 [hexDigit h, hexDigit l] = some (16 * h + l) := by
  decide +kernel

theorem unescape_escaped (c : UInt8) (s : Bytes) : unescape (escaped c ++ s) = c :: unescape s := by
  have hhigh : c.toNat / 16 < 16 := by
    have hc := c.toNat_lt
    omega
  have hlow : c.toNat % 16 < 16 := Nat.mod_lt _ (by decide)
  have hdigits : (ljCharIsxdigit (hexDigit (c.toNat / 16)) && ljCharIsxdigit (hexDigit (c.toNat % 16))) = true := by
    rw [(hexDigit_spec _ hhigh).1, (hexDigit_spec _ hlow).1]
    rfl
  have hvalue : 16 * (c.toNat / 16) + c.toNat % 16 = c.toNat := Nat.div_add_mod _ _
  show unescape (37 :: hexDigit (c.toNat / 16) :: hexDigit (c.toNat % 16) :: s) = c :: unescape s
  rw [unescape, if_pos hdigits, tonumber16_pair _ hhigh _ hlow, hvalue, Option.getD_some, Nat.toUInt8_eq,
    UInt8.ofNat_toNat]

theorem unescape_cons {c : UInt8} (hc : c ≠ 37) (s : Bytes) : unescape (c :: s) = c :: unescape s := by
  rw [unescape.eq_def]
  split
  next heq => exact absurd (List.head_eq_of_cons_eq heq) hc
  next heq =>
    obtain ⟨rfl, rfl⟩ := List.cons_eq_cons.mp heq
    rfl
  next heq => cases heq

theorem unescape_escapeUnless {keep : UInt8 → Bool} (hkeep : keep 37 = false) (s : Bytes) :
    unescape (escapeUnless keep s) = s := by
  induction s with
  | nil => rfl
  | cons c s ih =>
    rw [escapeUnless, List.flatMap_cons]
    split
    next hc =>
      have hne : c ≠ 37 := by
        rintro rfl
        rw [hkeep] at hc
        cases hc
      rw [List.singleton_append, unescape_cons hne]
      exact congrArg _ ih
    next =>
      rw [unescape_escaped]
      exact congrArg _ ih

theorem escapeUnless_mem {keep : UInt8 → Bool} {P : UInt8 → Prop} (hkeep : ∀ c, keep c = true → P c) (hpercent : P 37)
    (hword : ∀ c, isWord c = true → P c) {s : Bytes} {c : UInt8} (hc : c ∈ escapeUnless keep s) : P c := by
  obtain ⟨d, -, hd⟩ := List.mem_flatMap.mp hc
  split at hd
  next hk =>
    rw [List.mem_singleton] at hd
    exact hd ▸ hkeep d hk
  next =>
    have hdigit : ∀ n < 16, P (hexDigit n) := fun n hn => hword _ (hexDigit_spec n hn).2
    have hlt := d.toNat_lt
    simp only [escaped, List.mem_cons, List.not_mem_nil, or_false] at hd
    obtain rfl | rfl | rfl := hd
    · exact hpercent
    · exact hdigit _ (by omega)
    · exact hdigit _ (Nat.mod_lt _ (by decide))

/-- What is escaped can be read again, for any bytes. -/
theorem unescape_escape (s : Bytes) : unescape (escape s) = s := unescape_escapeUnless (by decide) s

theorem unescape_protectSegment (s : Bytes) : unescape (protectSegment s) = s := unescape_escapeUnless (by decide) s

/-- The characters that end a part of a URL. -/
def IsEnd (c : UInt8) : Prop := c = 47 ∨ c = 63 ∨ c = 59 ∨ c = 35

theorem protectSegment_mem {s : Bytes} {c : UInt8} (hc : c ∈ protectSegment s) : ¬IsEnd c := by
  have hword : ∀ c, isWord c = true → ¬IsEnd c := by
    rintro c hc (rfl | rfl | rfl | rfl) <;> revert hc <;> decide
  refine escapeUnless_mem (fun c hc => ?_) (by unfold IsEnd; decide) hword hc
  obtain hc | hc := Bool.or_eq_true_iff.mp hc
  · exact hword c hc
  · rintro (rfl | rfl | rfl | rfl) <;> revert hc <;> decide

theorem escapeUnless_ne_nil {keep : UInt8 → Bool} {s : Bytes} (hs : s ≠ []) : escapeUnless keep s ≠ [] := by
  obtain ⟨c, s, rfl⟩ := List.exists_cons_of_ne_nil hs
  rw [escapeUnless, List.flatMap_cons]
  split <;> exact List.cons_ne_nil _ _

theorem unescape_ne_nil {s : Bytes} (hs : s ≠ []) : unescape s ≠ [] := by
  obtain ⟨c, s, rfl⟩ := List.exists_cons_of_ne_nil hs
  unfold unescape
  split
  next => split <;> exact List.cons_ne_nil _ _
  next => exact List.cons_ne_nil _ _
  next heq => cases heq

/-! ## Paths -/

theorem pieces_append {a : Bytes} (ha : (47 : UInt8) ∉ a) (s : Bytes) : pieces (a ++ 47 :: s) = a :: pieces s := by
  induction a with
  | nil => rfl
  | cons c a ih =>
    obtain ⟨hc, ha⟩ := not_or.mp (List.mem_cons.not.mp ha)
    rw [List.cons_append, pieces, if_neg (Ne.symm hc), ih ha]
    rfl

theorem pieces_plain {a : Bytes} (ha : (47 : UInt8) ∉ a) : pieces a = [a] := by
  induction a with
  | nil => rfl
  | cons c a ih =>
    obtain ⟨hc, ha⟩ := not_or.mp (List.mem_cons.not.mp ha)
    rw [pieces, if_neg (Ne.symm hc), ih ha]
    rfl

/-- A segment as it stands in a path. -/
def IsSegment (s : Bytes) : Prop := s ≠ [] ∧ (47 : UInt8) ∉ s

theorem pieces_joined (slash : Bool) {segments : List Bytes} (h : ∀ s ∈ segments, IsSegment s) :
    (pieces (joined slash segments)).filter (· ≠ []) = segments := by
  induction segments using joined.induct with
  | case1 => rfl
  | case2 s =>
    obtain ⟨hs, hslash⟩ := h s List.mem_cons_self
    unfold joined
    cases slash with
    | false => simp [pieces_plain hslash, hs]
    | true => simp [pieces_append hslash, pieces, hs]
  | case3 s t rest ih =>
    obtain ⟨hs, hslash⟩ := h s List.mem_cons_self
    rw [joined, pieces_append hslash, List.filter_cons_of_pos (by simpa using hs),
      ih fun x hx => h x (List.mem_cons_of_mem _ hx)]

theorem head_joined (slash : Bool) {segments : List Bytes} (h : ∀ s ∈ segments, IsSegment s) :
    (joined slash segments).head? ≠ some 47 := by
  have hfirst : ∀ s, IsSegment s → ∀ t, (s ++ t).head? ≠ some 47 := by
    intro s hs t hhead
    obtain ⟨c, s, rfl⟩ := List.exists_cons_of_ne_nil hs.1
    obtain rfl : c = 47 := Option.some_inj.mp hhead
    exact hs.2 List.mem_cons_self
  unfold joined
  split
  next => exact fun h => nomatch h
  next s => exact hfirst s (h s List.mem_cons_self) _
  next s t rest => exact hfirst s (h s List.mem_cons_self) _

theorem joined_ne_nil (slash : Bool) {s : Bytes} (hs : s ≠ []) (rest : List Bytes) : joined slash (s :: rest) ≠ [] := by
  obtain ⟨c, s, rfl⟩ := List.exists_cons_of_ne_nil hs
  cases rest <;> exact List.cons_ne_nil _ _

theorem last_joined (slash : Bool) {segments : List Bytes} (h : ∀ s ∈ segments, IsSegment s) (hne : segments ≠ []) :
    (joined slash segments).getLast? = some 47 ↔ slash = true := by
  induction segments using joined.induct with
  | case1 => exact absurd rfl hne
  | case2 s =>
    obtain ⟨hs, hslash⟩ := h s List.mem_cons_self
    unfold joined
    cases slash with
    | true => simp
    | false =>
      simp only [Bool.false_eq_true, if_false, List.append_nil, iff_false]
      exact fun hlast => hslash (List.mem_of_getLast? hlast)
  | case3 s t rest ih =>
    rw [joined, List.getLast?_append, List.getLast?_cons, Option.some_or, Option.some_inj,
      ← ih (fun x hx => h x (List.mem_cons_of_mem _ hx)) (List.cons_ne_nil _ _)]
    obtain ⟨y, hy⟩ := Option.ne_none_iff_exists'.mp (List.getLast?_eq_none_iff.not.mpr (joined_ne_nil slash
      (h t (List.mem_cons_of_mem _ List.mem_cons_self)).1 rest))
    rw [hy, Option.getD_some, Option.some_inj]

/-- The tables that `parse_path` makes. -/
structure Path.Proper (p : Path) : Prop where
  segments : ∀ s ∈ p.segments, s ≠ []
  empty : p.segments = [] → p.isAbsolute = p.isDirectory

theorem Path.Proper.protected {p : Path} (hp : p.Proper) : ∀ s ∈ p.segments.map protectSegment, IsSegment s := by
  intro s hs
  obtain ⟨x, hx, rfl⟩ := List.mem_map.mp hs
  exact ⟨escapeUnless_ne_nil (hp.segments x hx), fun hslash => protectSegment_mem hslash (.inl rfl)⟩

theorem pieces_ne_nil (s : Bytes) : pieces s ≠ [] := by
  induction s with
  | nil => exact List.cons_ne_nil _ _
  | cons c s ih =>
    unfold pieces
    split
    next => exact List.cons_ne_nil _ _
    next => simpa using ih

theorem exists_piece {c : UInt8} {s : Bytes} (hc : c ∈ s) (hslash : c ≠ 47) :
    ∃ x ∈ pieces s, x ≠ [] := by
  induction s with
  | nil => exact absurd hc List.not_mem_nil
  | cons d s ih =>
    unfold pieces
    obtain ⟨x, rest, hx⟩ := List.exists_cons_of_ne_nil (pieces_ne_nil s)
    split
    next hd =>
      obtain rfl | hc := List.mem_cons.mp hc
      · exact absurd hd hslash
      · obtain ⟨y, hy, hne⟩ := ih hc
        exact ⟨y, List.mem_cons_of_mem _ hy, hne⟩
    next =>
      rw [hx]
      exact ⟨d :: x, List.mem_cons_self, List.cons_ne_nil _ _⟩

theorem slash_of_segments_nil {path : Bytes} (hnone : (parsePath path).segments = []) : ∀ c ∈ path, c = 47 := by
  intro c hc
  by_contra hne
  obtain ⟨x, hx, hx'⟩ := exists_piece hc hne
  have hmem : x ∈ (pieces path).filter (· ≠ []) := List.mem_filter.mpr ⟨hx, by simpa using hx'⟩
  rw [List.map_eq_nil_iff.mp hnone] at hmem
  exact List.not_mem_nil hmem

theorem parsePath_proper (path : Bytes) : (parsePath path).Proper where
  segments := by
    intro s hs
    obtain ⟨x, hx, rfl⟩ := List.mem_map.mp hs
    exact unescape_ne_nil (by simpa using (List.mem_filter.mp hx).2)
  empty := by
    intro hnone
    have hslash := slash_of_segments_nil hnone
    cases path with
    | nil => rfl
    | cons c s =>
      have hne := List.cons_ne_nil c s
      simp only [parsePath, List.head?_eq_some_head hne, List.getLast?_eq_some_getLast hne,
        hslash _ (List.head_mem hne), hslash _ (List.getLast_mem hne)]

/-- A path that is built from such a table is read as this table. -/
theorem parsePath_buildPath {p : Path} (hp : p.Proper) : parsePath (buildPath p false) = p := by
  obtain ⟨segments, isAbsolute, isDirectory⟩ := p
  have hsegments := hp.protected
  have hread : (segments.map protectSegment).map unescape = segments := by
    rw [List.map_map]
    exact List.map_id'' unescape_protectSegment _
  have hbuild : buildPath ⟨segments, isAbsolute, isDirectory⟩ false =
      (if isAbsolute then [47] else []) ++ joined isDirectory (segments.map protectSegment) := rfl
  have hpieces := pieces_joined isDirectory hsegments
  have hhead := head_joined isDirectory hsegments
  rw [parsePath, hbuild, Path.mk.injEq]
  refine ⟨?_, ?_, ?_⟩
  · cases isAbsolute with
    | true =>
      show ((pieces (47 :: joined _ _)).filter (· ≠ [])).map unescape = segments
      rw [pieces, if_pos rfl, List.filter_cons_of_neg (by simp), hpieces, hread]
    | false =>
      show ((pieces (joined _ _)).filter (· ≠ [])).map unescape = segments
      rw [hpieces, hread]
  · cases isAbsolute with
    | true => rfl
    | false => exact decide_eq_false hhead
  · cases segments with
    | nil =>
      obtain rfl : isAbsolute = isDirectory := hp.empty rfl
      cases isAbsolute <;> rfl
    | cons s rest =>
      have hlast := last_joined isDirectory hsegments (List.cons_ne_nil _ _)
      have hne : joined isDirectory ((s :: rest).map protectSegment) ≠ [] :=
        joined_ne_nil isDirectory (escapeUnless_ne_nil (hp.segments s List.mem_cons_self)) _
      rw [List.getLast?_append_of_ne_nil _ hne, Bool.eq_iff_iff, decide_eq_true_iff]
      exact hlast

theorem parsePath_buildPath_slash :
    parsePath (buildPath ⟨[[47], [37, 97]], true, false⟩ false) = ⟨[[47], [37, 97]], true, false⟩ :=
  parsePath_buildPath ⟨by simp, by simp⟩

/-- The form a path has when it is built again. -/
def normal (path : Bytes) : Bytes := buildPath (parsePath path) false

theorem parsePath_normal (path : Bytes) : parsePath (normal path) = parsePath path :=
  parsePath_buildPath (parsePath_proper path)

theorem normal_head (path : Bytes) : (normal path).head? = some 47 ↔ path.head? = some 47 :=
  decide_eq_decide.mp (congrArg Path.isAbsolute (parsePath_normal path))

theorem normal_ne_nil {path : Bytes} (hpath : path ≠ []) : normal path ≠ [] := by
  intro hnil
  have hparse := parsePath_normal path
  rw [hnil] at hparse
  obtain ⟨c, s, rfl⟩ := List.exists_cons_of_ne_nil hpath
  have hnone : (parsePath (c :: s)).segments = [] := (congrArg Path.segments hparse).symm
  obtain rfl : c = 47 := slash_of_segments_nil hnone c List.mem_cons_self
  have hhead := (normal_head (47 :: s)).mpr rfl
  rw [hnil] at hhead
  cases hhead

theorem joined_mem {slash : Bool} {segments : List Bytes} {c : UInt8} (hc : c ∈ joined slash segments) :
    c = 47 ∨ ∃ s ∈ segments, c ∈ s := by
  induction segments using joined.induct with
  | case1 => cases hc
  | case2 s =>
    obtain hc | hc := List.mem_append.mp hc
    · exact .inr ⟨s, List.mem_cons_self, hc⟩
    · cases slash with
      | false => cases hc
      | true => exact .inl (List.mem_singleton.mp hc)
  | case3 s t rest ih =>
    obtain hc | hc := List.mem_append.mp hc
    · exact .inr ⟨s, List.mem_cons_self, hc⟩
    · obtain hc | hc := List.mem_cons.mp hc
      · exact .inl hc
      · exact (ih hc).imp_right fun ⟨s, hs, hc⟩ => ⟨s, List.mem_cons_of_mem _ hs, hc⟩

theorem normal_mem {path : Bytes} {c : UInt8} (hc : c ∈ normal path) : c = 47 ∨ ¬IsEnd c := by
  obtain hc | hc := List.mem_append.mp hc
  · split at hc
    next => exact .inl (List.mem_singleton.mp hc)
    next => cases hc
  · refine (joined_mem hc).imp_right fun ⟨s, hs, hc⟩ => ?_
    obtain ⟨x, -, rfl⟩ := List.mem_map.mp hs
    exact protectSegment_mem hc

/-- No second slash is at the beginning, where an authority would be read. -/
theorem normal_slashes (path : Bytes) {tail : Bytes} (htail : tail.head? ≠ some 47) : ¬[47, 47] <+: normal path ++ tail := by
  have hsegments := (parsePath_proper path).protected
  have hhead : (joined (parsePath path).isDirectory ((parsePath path).segments.map protectSegment) ++ tail).head? ≠
      some 47 := by
    rw [List.head?_append]
    have hjoined := head_joined (parsePath path).isDirectory hsegments
    cases h : (joined (parsePath path).isDirectory ((parsePath path).segments.map protectSegment)).head? with
    | none => exact htail
    | some c =>
      rw [h] at hjoined
      exact hjoined
  rintro ⟨rest, hrest⟩
  have htext : normal path ++ tail = (if (parsePath path).isAbsolute then [47] else []) ++
      (joined (parsePath path).isDirectory ((parsePath path).segments.map protectSegment) ++ tail) :=
    List.append_assoc _ _ _
  rw [htext] at hrest
  split at hrest
  next =>
    have hjoined := List.tail_eq_of_cons_eq hrest
    exact hhead (congrArg List.head? hjoined.symm)
  next => exact hhead (congrArg List.head? hrest.symm)

/-! ## Cuts -/

theorem cut_behind {c : UInt8} {a : Bytes} (ha : c ∉ a) (o : Option Bytes) : cut c (a ++ behind c o) = (a, o) := by
  have hpos : ∀ x ∈ a, decide (x ≠ c) = true := fun x hx => decide_eq_true fun h => ha (h ▸ hx)
  have htake : (a ++ behind c o).takeWhile (· ≠ c) = a := by
    rw [List.takeWhile_append_of_pos hpos]
    cases o <;> simp [behind]
  have hdrop : (a ++ behind c o).dropWhile (· ≠ c) = behind c o := by
    rw [List.dropWhile_append_of_pos hpos]
    cases o <;> simp [behind]
  rw [cut, htake, hdrop]
  cases o <;> rfl

theorem cut_spec (c : UInt8) (s : Bytes) : c ∉ (cut c s).1 ∧ s = (cut c s).1 ++ behind c (cut c s).2 := by
  induction s with
  | nil => exact ⟨List.not_mem_nil, rfl⟩
  | cons d s ih =>
    by_cases hd : d = c
    · obtain rfl := hd
      have hcut : cut d (d :: s) = ([], some s) := cut_behind List.not_mem_nil (some s)
      rw [hcut]
      exact ⟨List.not_mem_nil, rfl⟩
    · have hcut : cut c (d :: s) = (d :: (cut c s).1, (cut c s).2) := by
        simp [cut, hd]
      rw [hcut]
      refine ⟨?_, congrArg (d :: ·) ih.2⟩
      exact fun h => (List.mem_cons.mp h).elim (fun h => hd h.symm) ih.1

theorem cutLast_spec (c : UInt8) (s : Bytes) : s = (cutLast c s).1 ++ behind c (cutLast c s).2 := by
  have hcut := (cut_spec c s.reverse).2
  unfold cutLast
  split
  next after before heq =>
    rw [heq] at hcut
    rw [← List.reverse_reverse s, hcut]
    simp [behind]
  next heq => exact (List.append_nil s).symm

/-! ### The scheme -/

def IsScheme (s : Bytes) : Prop := s.head?.any isalnum = true ∧ ∀ c ∈ s, isSchemeByte c = true

/-- The text begins with a scheme and a colon. -/
def HasScheme (url : Bytes) : Prop := ∃ s rest, url = s ++ 58 :: rest ∧ IsScheme s

theorem HasScheme.head {url : Bytes} (h : HasScheme url) : url.head?.any isalnum = true := by
  obtain ⟨s, rest, rfl, hs⟩ := h
  cases s with
  | nil => exact absurd hs.1 Bool.false_ne_true
  | cons c s => exact hs.1

def withScheme (scheme : Option Bytes) (url : Bytes) : Bytes :=
  match scheme with
  | some scheme => scheme ++ 58 :: url
  | none => url

theorem getScheme_some {s : Bytes} (hs : IsScheme s) (rest : Bytes) :
    getScheme (s ++ 58 :: rest) = (rest, some s) := by
  have htake : (s ++ 58 :: rest).takeWhile isSchemeByte = s := by
    rw [List.takeWhile_append_of_pos hs.2, List.takeWhile_cons_of_neg (by decide), List.append_nil]
  have hdrop : (s ++ 58 :: rest).dropWhile isSchemeByte = 58 :: rest := by
    rw [List.dropWhile_append_of_pos hs.2, List.dropWhile_cons_of_neg (by decide)]
  have hhead : HasScheme (s ++ 58 :: rest) := ⟨s, rest, rfl, hs⟩
  rw [getScheme, hdrop, htake]
  exact if_pos hhead.head

theorem getScheme_none {url : Bytes} (h : ¬HasScheme url) : getScheme url = (url, none) := by
  unfold getScheme
  split
  next rest hdrop =>
    refine if_neg fun hhead => h ⟨url.takeWhile isSchemeByte, rest, ?_, ?_, fun c hc => List.mem_takeWhile_imp hc⟩
    · rw [← hdrop, List.takeWhile_append_dropWhile]
    · cases url with
      | nil => exact absurd hhead Bool.false_ne_true
      | cons c url =>
        have hc : isSchemeByte c = true := by
          have halnum : isalnum c = true := hhead
          simp [isSchemeByte, halnum]
        rw [List.takeWhile_cons_of_pos hc]
        exact hhead
  next => rfl

theorem getScheme_spec (url : Bytes) : url = withScheme (getScheme url).2 (getScheme url).1 ∧
    (∀ s, (getScheme url).2 = some s → IsScheme s) ∧ ((getScheme url).2 = none → ¬HasScheme (getScheme url).1) := by
  by_cases h : HasScheme url
  · obtain ⟨s, rest, rfl, hs⟩ := h
    rw [getScheme_some hs]
    exact ⟨rfl, fun t ht => Option.some_inj.mp ht ▸ hs, nofun⟩
  · rw [getScheme_none h]
    exact ⟨rfl, nofun, fun _ => h⟩

/-- What does not go on with a scheme cannot make one of a text that has none. -/
theorem hasScheme_of_append {a tail : Bytes} (htail : ∀ c ∈ tail.head?, isSchemeByte c = false ∧ c ≠ 58)
    (h : HasScheme (a ++ tail)) : HasScheme a := by
  obtain ⟨s, rest, heq, hs⟩ := h
  obtain ⟨cs, rfl, rfl⟩ | ⟨cs, rfl, htext⟩ := List.append_eq_append_iff.mp heq
  · cases cs with
    | nil => exact absurd rfl (htail 58 rfl).2
    | cons b cs =>
      have hb : isSchemeByte b = true := hs.2 b (List.mem_append_right _ List.mem_cons_self)
      rw [(htail b rfl).1] at hb
      cases hb
  · cases cs with
    | nil =>
      obtain rfl : 58 :: rest = tail := htext
      exact absurd rfl (htail 58 rfl).2
    | cons b cs =>
      obtain rfl : 58 = b := List.head_eq_of_cons_eq htext
      exact ⟨s, cs, rfl, hs⟩

/-! ### The authority -/

def withAuthority (authority : Option Bytes) (url : Bytes) : Bytes :=
  match authority with
  | some authority => 47 :: 47 :: authority ++ url
  | none => url

theorem getAuthority_some {a : Bytes} (ha : (47 : UInt8) ∉ a) {rest : Bytes} (hrest : ∀ c ∈ rest.head?, c = 47) :
    getAuthority (47 :: 47 :: a ++ rest) = (rest, some a) := by
  have hpos : ∀ c ∈ a, decide (c ≠ 47) = true := fun c hc => decide_eq_true fun h => ha (h ▸ hc)
  have hstop : rest.takeWhile (· ≠ 47) = [] ∧ rest.dropWhile (· ≠ 47) = rest := by
    cases rest with
    | nil => exact ⟨rfl, rfl⟩
    | cons c rest =>
      obtain rfl : c = 47 := hrest c rfl
      exact ⟨rfl, rfl⟩
  show ((a ++ rest).dropWhile (· ≠ 47), some ((a ++ rest).takeWhile (· ≠ 47))) = _
  rw [List.takeWhile_append_of_pos hpos, List.dropWhile_append_of_pos hpos, hstop.1, hstop.2, List.append_nil]

theorem getAuthority_none {url : Bytes} (h : ¬[47, 47] <+: url) : getAuthority url = (url, none) := by
  unfold getAuthority
  split
  next rest => exact absurd ⟨rest, rfl⟩ h
  next => rfl

theorem getAuthority_spec (url : Bytes) : url = withAuthority (getAuthority url).2 (getAuthority url).1 ∧
    (∀ a, (getAuthority url).2 = some a → (47 : UInt8) ∉ a ∧ ∀ c ∈ (getAuthority url).1.head?, c = 47) ∧
    ((getAuthority url).2 = none → ¬[47, 47] <+: (getAuthority url).1) := by
  by_cases h : [47, 47] <+: url
  · obtain ⟨rest, rfl⟩ := h
    obtain ⟨hnone, hrest⟩ := cut_spec 47 rest
    have hbehind : ∀ c ∈ (behind 47 (cut 47 rest).2).head?, c = 47 := by
      intro c hc
      cases ho : (cut 47 rest).2 with
      | none => rw [ho] at hc; cases hc
      | some s => rw [ho] at hc; exact (Option.some_inj.mp hc).symm
    have hget : getAuthority ([47, 47] ++ rest) = (behind 47 (cut 47 rest).2, some (cut 47 rest).1) := by
      rw [← getAuthority_some hnone hbehind]
      exact congrArg (fun x => getAuthority (47 :: 47 :: x)) hrest
    rw [hget]
    exact ⟨congrArg (fun x => 47 :: 47 :: x) hrest, fun a ha => Option.some_inj.mp ha ▸ ⟨hnone, hbehind⟩, nofun⟩
  · rw [getAuthority_none h]
    exact ⟨rfl, nofun, fun _ => h⟩

/-! ## The parts of a URL -/

/-- A URL as the parts that `parse` cuts it into, before the authority is looked at. -/
structure Parts where
  scheme : Option Bytes
  authority : Option Bytes
  path : Bytes
  params : Option Bytes
  query : Option Bytes
  fragment : Option Bytes

namespace Parts
variable (u : Parts)

def textPath : Bytes := u.path ++ behind 59 u.params

def textQuery : Bytes := u.textPath ++ behind 63 u.query

def textAuthority : Bytes := withAuthority u.authority u.textQuery

def textScheme : Bytes := withScheme u.scheme u.textAuthority

def text : Bytes := u.textScheme ++ behind 35 u.fragment

/-- No part holds what would end it, and what is missing is not there by chance. -/
structure Proper : Prop where
  fragment : (35 : UInt8) ∉ u.textScheme
  scheme : ∀ s, u.scheme = some s → IsScheme s
  noScheme : u.scheme = none → ¬HasScheme u.textAuthority
  authority : ∀ a, u.authority = some a → (47 : UInt8) ∉ a ∧ ∀ c ∈ u.textQuery.head?, c = 47
  noAuthority : u.authority = none → ¬[47, 47] <+: u.textQuery
  query : (63 : UInt8) ∉ u.textPath
  params : (59 : UInt8) ∉ u.path

end Parts

def split (url : Bytes) : Parts :=
  let (url, fragment) := cut 35 url
  let (url, scheme) := getScheme url
  let (url, authority) := getAuthority url
  let (url, query) := cut 63 url
  let (path, params) := cut 59 url
  ⟨scheme, authority, path, params, query, fragment⟩

/-- The parts put together are the URL. -/
theorem split_spec (url : Bytes) : (split url).text = url ∧ (split url).Proper := by
  obtain ⟨hfragment, htext⟩ := cut_spec 35 url
  obtain ⟨htextScheme, hscheme, hnoScheme⟩ := getScheme_spec (cut 35 url).1
  obtain ⟨htextAuthority, hauthority, hnoAuthority⟩ := getAuthority_spec (getScheme (cut 35 url).1).1
  obtain ⟨hquery, htextQuery⟩ := cut_spec 63 (getAuthority (getScheme (cut 35 url).1).1).1
  obtain ⟨hparams, htextPath⟩ := cut_spec 59 (cut 63 (getAuthority (getScheme (cut 35 url).1).1).1).1
  have hpath : (split url).textPath = (cut 63 (getAuthority (getScheme (cut 35 url).1).1).1).1 := htextPath.symm
  have hq : (split url).textQuery = (getAuthority (getScheme (cut 35 url).1).1).1 := by
    rw [Parts.textQuery, hpath]
    exact htextQuery.symm
  have ha : (split url).textAuthority = (getScheme (cut 35 url).1).1 := by
    rw [Parts.textAuthority, hq]
    exact htextAuthority.symm
  have hs : (split url).textScheme = (cut 35 url).1 := by
    rw [Parts.textScheme, ha]
    exact htextScheme.symm
  refine ⟨?_, ?_, hscheme, ?_, ?_, ?_, ?_, hparams⟩
  · rw [Parts.text, hs]
    exact htext.symm
  · rwa [hs]
  · rwa [ha]
  · rwa [hq]
  · rwa [hq]
  · rwa [hpath]

/-- A URL is cut into the parts it was put together from. -/
theorem split_text {u : Parts} (hu : u.Proper) : split u.text = u := by
  have hfragment : cut 35 u.text = (u.textScheme, u.fragment) := cut_behind hu.fragment u.fragment
  have hscheme : getScheme u.textScheme = (u.textAuthority, u.scheme) := by
    unfold Parts.textScheme
    cases h : u.scheme with
    | none => exact getScheme_none (hu.noScheme h)
    | some s => exact getScheme_some (hu.scheme s h) u.textAuthority
  have hauthority : getAuthority u.textAuthority = (u.textQuery, u.authority) := by
    unfold Parts.textAuthority
    cases h : u.authority with
    | none => exact getAuthority_none (hu.noAuthority h)
    | some a => exact getAuthority_some (hu.authority a h).1 (hu.authority a h).2
  have hquery : cut 63 u.textQuery = (u.textPath, u.query) := cut_behind hu.query u.query
  have hparams : cut 59 u.textPath = (u.path, u.params) := cut_behind hu.params u.params
  simp only [split, hfragment, hscheme, hauthority, hquery, hparams]

/-- What `parse` makes of the parts. -/
def Parts.parsed (u : Parts) : Parsed :=
  let parsed : Parsed :=
    { scheme := u.scheme, authority := u.authority, path := if u.path = [] then none else some u.path
      params := u.params, query := u.query, fragment := u.fragment }
  match u.authority with
  | none => parsed
  | some authority => parseAuthority parsed authority

theorem parse_eq {url : Bytes} (hurl : url ≠ []) : parse url {} = some (split url).parsed := by
  simp only [parse, if_neg hurl, Option.or_none]
  rfl

/-! ## The authority again -/

/-- What `parseAuthority` does when the user is cut off. -/
def parseHost (p : Parsed) (authority : Bytes) (userinfo : Option Bytes) : Parsed :=
  { p with
    userinfo := userinfo, port := (cutLast 58 authority).2.or p.port
    host := if (cutLast 58 authority).1 = [] then p.host else some (cutLast 58 authority).1 }

/-- Nothing is known yet of what an authority says. -/
structure Parsed.Fresh (p : Parsed) : Prop where
  userinfo : p.userinfo = none
  user : p.user = none
  password : p.password = none
  host : p.host = none
  port : p.port = none

variable {p : Parsed} (hp : p.Fresh)
include hp

theorem build_host (authority : Bytes) (userinfo : Option Bytes) : (parseHost p authority userinfo).host = none ∨
    ∃ host, (parseHost p authority userinfo).host = some host ∧
      host ++ behind 58 (parseHost p authority userinfo).port = authority := by
  by_cases h : (cutLast 58 authority).1 = []
  · exact .inl ((if_pos h).trans hp.host)
  · refine .inr ⟨_, if_neg h, ?_⟩
    show (cutLast 58 authority).1 ++ behind 58 ((cutLast 58 authority).2.or p.port) = authority
    rw [hp.port, Option.or_none]
    exact (cutLast_spec 58 authority).symm

theorem build_userinfo (authority userinfo : Bytes) :
    let parsed := parseUserinfo (parseHost p authority (some userinfo)) userinfo
    ∃ user, parsed.user = some user ∧ user ++ behind 58 parsed.password = userinfo := by
  refine ⟨_, rfl, ?_⟩
  show (cutLast 58 userinfo).1 ++ behind 58 ((cutLast 58 userinfo).2.or p.password) = userinfo
  rw [hp.password, Option.or_none]
  exact (cutLast_spec 58 userinfo).symm

/-- The user, the password, the host and the port make up the authority they come from. -/
theorem buildAuthority_parseAuthority {a : Bytes} (ha : p.authority = some a) :
    buildAuthority (parseAuthority p a) = some a := by
  obtain ⟨-, htext⟩ := cut_spec 64 a
  rcases hcut : cut 64 a with ⟨u, b⟩
  rw [hcut] at htext
  cases b with
  | none =>
    obtain rfl : a = u := htext.trans (List.append_nil u)
    have hparse : parseAuthority p a = parseHost p a none := by
      simp only [parseAuthority, hcut, hp.userinfo]
      rfl
    have huser : (parseHost p a none).user = none := hp.user
    rw [hparse]
    obtain hhost | ⟨host, hhost, hauthority⟩ := build_host hp a none
    · rw [buildAuthority, hhost]
      exact ha
    · rw [buildAuthority, hhost]
      simp only [huser, hauthority]
      rfl
  | some b =>
    have hparse : parseAuthority p a = parseUserinfo (parseHost p b (some u)) u := by
      simp only [parseAuthority, hcut]
      rfl
    rw [hparse]
    obtain hhost | ⟨host, hhost, hauthority⟩ := build_host hp b (some u)
    · have hnone : (parseUserinfo (parseHost p b (some u)) u).host = none := hhost
      rw [buildAuthority, hnone]
      exact ha
    · have hsome : (parseUserinfo (parseHost p b (some u)) u).host = some host := hhost
      obtain ⟨user, huser, huserinfo⟩ := build_userinfo hp b u
      rw [buildAuthority, hsome]
      simp only [huser, huserinfo]
      show some (u ++ 64 :: (host ++ behind 58 (parseHost p b (some u)).port)) = some a
      rw [hauthority, htext]
      rfl

omit hp

theorem buildAuthority_parsed (u : Parts) : buildAuthority u.parsed = u.authority := by
  unfold Parts.parsed
  cases h : u.authority with
  | none => rfl
  | some a => exact buildAuthority_parseAuthority ⟨rfl, rfl, rfl, rfl, rfl⟩ rfl

/-- The authority says nothing of the other parts. -/
theorem parseAuthority_other (p : Parsed) (a : Bytes) :
    let q := parseAuthority p a
    q.scheme = p.scheme ∧ q.authority = p.authority ∧ q.path = p.path ∧ q.params = p.params ∧ q.query = p.query ∧
      q.fragment = p.fragment := by
  simp only [parseAuthority]
  split <;> split <;> exact ⟨rfl, rfl, rfl, rfl, rfl, rfl⟩

theorem Parts.parsed_fields (u : Parts) :
    u.parsed.scheme = u.scheme ∧ u.parsed.authority = u.authority ∧
      u.parsed.path = (if u.path = [] then none else some u.path) ∧ u.parsed.params = u.params ∧
      u.parsed.query = u.query ∧ u.parsed.fragment = u.fragment := by
  unfold Parts.parsed
  cases h : u.authority with
  | none => exact ⟨rfl, rfl, rfl, rfl, rfl, rfl⟩
  | some a => exact parseAuthority_other _ a

theorem parseAuthority_path (p : Parsed) (a : Bytes) (path : Option Bytes) :
    parseAuthority { p with path := path } a = { parseAuthority p a with path := path } := by
  simp only [parseAuthority]
  split <;> split <;> rfl

/-! ## Reading what was built -/

def Parts.normalized (u : Parts) : Parts := { u with path := normal u.path }

theorem parsed_normalized (u : Parts) : u.normalized.parsed = { u.parsed with path := u.parsed.path.map normal } := by
  have hpath : (if normal u.path = [] then none else some (normal u.path)) =
      (if u.path = [] then none else some u.path).map normal := by
    by_cases h : u.path = []
    · rw [h]
      rfl
    · rw [if_neg h, if_neg (normal_ne_nil h)]
      rfl
  obtain ⟨-, -, hparsed, -⟩ := u.parsed_fields
  rw [hparsed, ← hpath]
  obtain ⟨scheme, authority, path, params, query, fragment⟩ := u
  cases authority with
  | none => rfl
  | some a => exact parseAuthority_path ⟨scheme, some a, none, none, none, none, none, _, params, query, fragment⟩ a _

theorem build_parsed (u : Parts) : build u.parsed = u.normalized.text := by
  obtain ⟨hscheme, -, hpath, hparams, hquery, hfragment⟩ := u.parsed_fields
  have hgetD : (if u.path = [] then none else some u.path).getD [] = u.path := by
    split
    next h => exact h.symm
    next => rfl
  rw [build, hpath, hgetD, hparams, hquery, hfragment, buildAuthority_parsed, hscheme]
  simp only [Parts.text, Parts.textScheme, Parts.textAuthority, Parts.textQuery, Parts.textPath, withScheme,
    withAuthority]
  rfl

theorem withScheme_append (scheme : Option Bytes) : ∃ before, ∀ url, withScheme scheme url = before ++ url := by
  cases scheme with
  | none => exact ⟨[], fun _ => rfl⟩
  | some s => exact ⟨s ++ [58], fun url => List.append_cons s 58 url⟩

theorem withAuthority_append (authority : Option Bytes) : ∃ before, ∀ url, withAuthority authority url = before ++ url := by
  cases authority with
  | none => exact ⟨[], fun _ => rfl⟩
  | some a => exact ⟨47 :: 47 :: a, fun _ => rfl⟩

theorem not_mem_normal {path : Bytes} {c : UInt8} (hc : IsEnd c) (hslash : c ≠ 47) : c ∉ normal path :=
  fun hmem => (normal_mem hmem).elim hslash fun h => h hc

/-- What stands behind the path. -/
theorem tail_head (params query : Option Bytes) : ∀ c ∈ (behind 59 params ++ behind 63 query).head?, c = 59 ∨ c = 63 := by
  intro c hc
  cases params with
  | some s => exact .inl (Option.some_inj.mp hc).symm
  | none =>
    cases query with
    | some s => exact .inr (Option.some_inj.mp hc).symm
    | none => cases hc

theorem textQuery_append (u : Parts) : u.textQuery = u.path ++ (behind 59 u.params ++ behind 63 u.query) :=
  List.append_assoc _ _ _

theorem textScheme_append (u : Parts) : ∃ before, ∀ path, Parts.textScheme { u with path := path } =
    before ++ (path ++ (behind 59 u.params ++ behind 63 u.query)) := by
  obtain ⟨before, hbefore⟩ := withScheme_append u.scheme
  obtain ⟨before', hbefore'⟩ := withAuthority_append u.authority
  refine ⟨before ++ before', fun path => ?_⟩
  show withScheme u.scheme (withAuthority u.authority (Parts.textQuery { u with path := path })) = _
  rw [hbefore, hbefore', textQuery_append, List.append_assoc]

theorem normalized_fragment {u : Parts} (hu : u.Proper) : (35 : UInt8) ∉ u.normalized.textScheme := by
  obtain ⟨before, hbefore⟩ := textScheme_append u
  have hfragment := hu.fragment
  have hnormal : (35 : UInt8) ∉ normal u.path := not_mem_normal (.inr (.inr (.inr rfl))) (by decide)
  rw [hbefore u.path, List.mem_append, List.mem_append, not_or, not_or] at hfragment
  rw [Parts.normalized, hbefore, List.mem_append, List.mem_append, not_or, not_or]
  exact ⟨hfragment.1, hnormal, hfragment.2.2⟩

/-- With a scheme or an authority in front, or no scheme of its own at the beginning, the path can be written in
its normal form. -/
theorem normalized_proper {u : Parts} (hu : u.Proper)
    (hpath : u.scheme = none → u.authority = none → ¬HasScheme (normal u.path)) : u.normalized.Proper := by
  have htail := tail_head u.params u.query
  have hquery : u.normalized.textQuery = normal u.path ++ (behind 59 u.params ++ behind 63 u.query) :=
    textQuery_append u.normalized
  refine ⟨?_, hu.scheme, ?_, ?_, ?_, ?_, not_mem_normal (.inr (.inr (.inl rfl))) (by decide)⟩
  · exact normalized_fragment hu
  · intro hscheme
    show ¬HasScheme (withAuthority u.authority u.normalized.textQuery)
    rw [hquery]
    cases ha : u.authority with
    | none =>
      refine fun h => hpath hscheme ha (hasScheme_of_append (fun c hc => ?_) h)
      obtain rfl | rfl := htail c hc <;> decide
    | some a => exact fun h => absurd h.head Bool.false_ne_true
  · intro a ha
    obtain ⟨hslash, hhead⟩ := hu.authority a ha
    refine ⟨hslash, ?_⟩
    rw [textQuery_append] at hhead
    rw [hquery]
    by_cases hnil : u.path = []
    · rw [hnil] at hhead ⊢
      exact hhead
    · obtain ⟨c, s, hc⟩ := List.exists_cons_of_ne_nil hnil
      rw [hc] at hhead
      obtain rfl : c = 47 := hhead c rfl
      have hnormal : (normal u.path).head? = some 47 := (normal_head u.path).mpr (hc ▸ rfl)
      rw [List.head?_append, hnormal]
      exact fun c hc => (Option.some_inj.mp hc).symm
  · intro ha
    rw [hquery]
    refine normal_slashes u.path fun h => ?_
    obtain h | h := htail 47 h <;> revert h <;> decide
  · have hquery := hu.query
    have hnormal : (63 : UInt8) ∉ normal u.path := not_mem_normal (.inr (.inl rfl)) (by decide)
    show (63 : UInt8) ∉ normal u.path ++ behind 59 u.params
    rw [Parts.textPath] at hquery
    simp only [List.mem_append, not_or] at hquery ⊢
    exact ⟨hnormal, hquery.2⟩

theorem normalized_ne_nil {u : Parts} (hu : u.text ≠ []) : u.normalized.text ≠ [] := by
  by_cases hpath : u.path = []
  · have hsame : u.normalized = u := by
      rw [Parts.normalized, hpath]
      obtain ⟨scheme, authority, path, params, query, fragment⟩ := u
      obtain rfl : path = [] := hpath
      rfl
    rwa [hsame]
  · obtain ⟨before, hbefore⟩ := textScheme_append u
    rw [Parts.text, Parts.normalized, hbefore]
    simp [normal_ne_nil hpath]

/-- The URL that is built from what was parsed has the same parts, with the path in its normal form; only where the
path alone comes first, and its normal form begins like a scheme, it has not. -/
theorem parse_build {url : Bytes} {p : Parsed} (hp : parse url {} = some p) :
    parse (build p) {} = some { p with path := p.path.map normal } ↔
      (p.scheme = none → p.authority = none → ¬HasScheme (normal (p.path.getD []))) := by
  have hurl : url ≠ [] := by
    rintro rfl
    cases hp
  obtain ⟨htext, hu⟩ := split_spec url
  rw [parse_eq hurl] at hp
  obtain rfl := Option.some_inj.mp hp
  obtain ⟨hscheme, hauthority, hpath, -⟩ := (split url).parsed_fields
  have hgetD : ((split url).parsed.path).getD [] = (split url).path := by
    rw [hpath]
    split
    next h => exact h.symm
    next => rfl
  have hne : (split url).normalized.text ≠ [] := normalized_ne_nil (htext.symm ▸ hurl)
  rw [build_parsed, parse_eq hne, ← parsed_normalized, hscheme, hauthority, hgetD]
  constructor
  · intro hparse hnone hnone' ⟨s, rest, hnormal, hs⟩
    have hsplit := congrArg Parsed.scheme (Option.some_inj.mp hparse)
    rw [(Parts.parsed_fields _).1, (Parts.parsed_fields _).1] at hsplit
    have hfragment : cut 35 (split url).normalized.text = ((split url).normalized.textScheme, (split url).fragment) :=
      cut_behind (normalized_fragment hu) _
    have hstart : (split url).normalized.textScheme =
        s ++ 58 :: (rest ++ (behind 59 (split url).params ++ behind 63 (split url).query)) := by
      show withScheme (split url).scheme (withAuthority (split url).authority (split url).normalized.textQuery) = _
      rw [hnone, hnone', textQuery_append]
      show normal (split url).path ++ _ = _
      rw [hnormal, List.append_assoc]
      rfl
    have hread : (split (split url).normalized.text).scheme = some s := by
      show (getScheme (cut 35 (split url).normalized.text).1).2 = some s
      rw [hfragment, hstart, getScheme_some hs]
    rw [hread] at hsplit
    exact nomatch hsplit.trans hnone
  · intro hclear
    rw [split_text (normalized_proper hu hclear)]

theorem parse_build_letter : parse (build { scheme := some [115], path := some [47, 37, 52, 49] }) {} =
    some { scheme := some [115], path := some [47, 65] } := by
  have hp : parse [115, 58, 47, 37, 52, 49] {} = some { scheme := some [115], path := some [47, 37, 52, 49] } := by
    decide
  exact (parse_build hp).mpr nofun

-- An escaped colon comes out of the path as it is, and ends a scheme.
example : (parse [97, 37, 51, 97, 98] {}).map build = some [97, 58, 98] := by
  decide

end LuaTT.Url
