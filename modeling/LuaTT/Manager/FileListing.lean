import Mathlib.Data.List.Basic
import LuaTT.Lua.Number

/-! `GetFiles`, and `LuaManager::LoadLuaPlugins` that calls it. The directory is the list of the entries that
match the path. -/
namespace LuaTT.FileListing
open Lua
set_option autoImplicit false

/-- `WIN32_FIND_DATA`, as far as it is read. -/
structure FindData where
  dwFileAttributes : BitVec 32
  cFileName : Bytes

def FILE_ATTRIBUTE_DIRECTORY : BitVec 32 := 0x10#32

/-- What a search has yet to enumerate; `none` is `INVALID_HANDLE_VALUE`. -/
abbrev Handle := Option (List FindData)

/-- With no entry the search fails and the output is left as it is. -/
def findFirstFile (entries : List FindData) (findFileData : FindData) : Handle × FindData :=
  match entries with
  | [] => (none, findFileData)
  | e :: rest => (some rest, e)

/-- `std::vector<std::string>::push_back` under the test of the attributes: the body of the loop and its copy
before it. -/
def pushFile (findFileData : FindData) (data : List Bytes) : List Bytes :=
  if findFileData.dwFileAttributes ≠ FILE_ATTRIBUTE_DIRECTORY then data ++ [findFileData.cFileName] else data

/-- The `while` loop: each round takes one entry off the search. -/
def findNextFiles (data : List Bytes) : List FindData → List Bytes
  | [] => data
  | e :: rest => findNextFiles (pushFile e data) rest

/-- `FindNextFile` fails at once on an invalid handle. -/
def whileFindNextFile (hFind : Handle) (data : List Bytes) : List Bytes :=
  match hFind with
  | none => data
  | some rest => findNextFiles data rest

/-- `uninitialised` is what the stack holds where `FindFileData` is put. -/
def getFiles (entries : List FindData) (uninitialised : FindData) (data : List Bytes) : List Bytes :=
  let (hFind, findFileData) := findFirstFile entries uninitialised
  whileFindNextFile hFind (pushFile findFileData data)

/-- The loop of `LoadLuaPlugins`, over what `LoadLua` does to the server. -/
def loadLuaPlugins {W : Type} (loadLua : Bytes → W → W) (basepath : Bytes) (entries : List FindData)
    (uninitialised : FindData) (w : W) : W :=
  (getFiles entries uninitialised []).foldl
    (fun w name => loadLua (basepath ++ bytes "\\LuaPlugins\\" ++ name) w) w

/-! ## What is listed -/

/-- The bit of the mask, whatever else it holds. -/
def FindData.isDirectory (e : FindData) : Bool := e.dwFileAttributes &&& FILE_ATTRIBUTE_DIRECTORY ≠ 0

/-- The attributes are compared as a whole. -/
def FindData.listed (e : FindData) : Bool := e.dwFileAttributes ≠ FILE_ATTRIBUTE_DIRECTORY

/-- The names of the entries without the directory bit. -/
def plainFiles (entries : List FindData) : List Bytes :=
  (entries.filter fun e => !e.isDirectory).map (·.cFileName)

theorem pushFile_eq (e : FindData) (data : List Bytes) :
    pushFile e data = data ++ ([e].filter FindData.listed).map (·.cFileName) := by
  unfold pushFile
  by_cases hd : e.dwFileAttributes = FILE_ATTRIBUTE_DIRECTORY
  · have hl : e.listed = false := by simp [FindData.listed, hd]
    simp [hd, hl]
  · have hl : e.listed = true := by simp [FindData.listed, hd]
    simp [hd, hl]

theorem findNextFiles_eq (data : List Bytes) (entries : List FindData) :
    findNextFiles data entries = data ++ (entries.filter FindData.listed).map (·.cFileName) := by
  induction entries generalizing data with
  | nil => simp [findNextFiles]
  | cons e rest ih =>
    have hsplit : e :: rest = [e] ++ rest := rfl
    rw [findNextFiles, ih, pushFile_eq, hsplit, List.filter_append, List.map_append, List.append_assoc]

theorem getFiles_cons (e : FindData) (rest : List FindData) (uninitialised : FindData) (data : List Bytes) :
    getFiles (e :: rest) uninitialised data =
      data ++ ((e :: rest).filter FindData.listed).map (·.cFileName) := by
  rw [← findNextFiles_eq]
  rfl

theorem getFiles_nil (uninitialised : FindData) (data : List Bytes) :
    getFiles [] uninitialised data = pushFile uninitialised data := rfl

/-! ## Where the comparison agrees with the bit -/

theorem listed_of_not_isDirectory {e : FindData} (h : e.isDirectory = false) : e.listed = true := by
  have hne : e.dwFileAttributes ≠ FILE_ATTRIBUTE_DIRECTORY := by
    intro he
    rw [FindData.isDirectory, he] at h
    cases h
  simp [FindData.listed, hne]

theorem plainFiles_eq_iff (entries : List FindData) :
    (entries.filter FindData.listed).map (·.cFileName) = plainFiles entries ↔
      ∀ e ∈ entries, e.isDirectory → e.dwFileAttributes = FILE_ATTRIBUTE_DIRECTORY := by
  constructor
  · intro heq e he hdir
    by_contra hne
    -- the list with the bit tested is part of the other, and as long
    have hsub : (entries.filter fun e => !e.isDirectory).Sublist (entries.filter FindData.listed) := by
      apply List.monotone_filter_right
      intro e hplain
      exact listed_of_not_isDirectory (by simpa using hplain)
    have hlen := congrArg List.length heq
    rw [plainFiles, List.length_map, List.length_map] at hlen
    have hsame := hsub.eq_of_length hlen.symm
    have hmem : e ∈ entries.filter FindData.listed :=
      List.mem_filter.mpr ⟨he, by simpa [FindData.listed] using hne⟩
    rw [← hsame] at hmem
    have hplain := (List.mem_filter.mp hmem).2
    rw [hdir] at hplain
    cases hplain
  · intro hall
    have hsame : entries.filter FindData.listed = entries.filter fun e => !e.isDirectory := by
      apply List.filter_congr
      intro e he
      cases hd : e.isDirectory with
      | true => simp [FindData.listed, hall e he hd]
      | false => exact listed_of_not_isDirectory hd
    rw [plainFiles, hsame]

theorem pushFile_eq_self (e : FindData) (data : List Bytes) :
    pushFile e data = data ↔ e.dwFileAttributes = FILE_ATTRIBUTE_DIRECTORY := by
  unfold pushFile
  by_cases hd : e.dwFileAttributes = FILE_ATTRIBUTE_DIRECTORY
  · simp [hd]
  · simp [hd]

/-! ## The listing -/

/-- `GetFiles` appends the plain files and nothing else, and `LoadLuaPlugins` loads them and nothing else. -/
structure ListsPlainFiles (entries : List FindData) (uninitialised : FindData) : Prop where
  getFiles : ∀ data, getFiles entries uninitialised data = data ++ plainFiles entries
  loads : ∀ (W : Type) (loadLua : Bytes → W → W) (basepath : Bytes) (w : W),
    loadLuaPlugins loadLua basepath entries uninitialised w = (plainFiles entries).foldl
      (fun w name => loadLua (basepath ++ bytes "\\LuaPlugins\\" ++ name) w) w

/-- A failed search shows in what the stack held; an enumeration, in the directories that have other bits set
as well. -/
theorem directory_listing (entries : List FindData) (uninitialised : FindData) :
    ListsPlainFiles entries uninitialised ↔
      (entries = [] → uninitialised.dwFileAttributes = FILE_ATTRIBUTE_DIRECTORY) ∧
        ∀ e ∈ entries, e.isDirectory → e.dwFileAttributes = FILE_ATTRIBUTE_DIRECTORY := by
  have hget : (∀ data, getFiles entries uninitialised data = data ++ plainFiles entries) ↔
      (entries = [] → uninitialised.dwFileAttributes = FILE_ATTRIBUTE_DIRECTORY) ∧
        ∀ e ∈ entries, e.isDirectory → e.dwFileAttributes = FILE_ATTRIBUTE_DIRECTORY := by
    cases entries with
    | nil => simp [getFiles_nil, plainFiles, pushFile_eq_self]
    | cons e rest =>
      simp only [getFiles_cons, List.append_cancel_left_eq]
      rw [plainFiles_eq_iff]
      simp
  rw [← hget]
  constructor
  · exact ListsPlainFiles.getFiles
  · intro h
    refine ⟨h, ?_⟩
    intro W loadLua basepath w
    rw [loadLuaPlugins, h, List.nil_append]

/-- A hidden directory `old.lua` is listed and loaded as a plugin; in an empty directory the name is what the
stack held. -/
theorem directory_listing_fails :
    ¬ ListsPlainFiles [⟨0x12#32, bytes "old.lua"⟩] ⟨0, []⟩ ∧ ¬ ListsPlainFiles [] ⟨0, bytes "x"⟩ := by
  constructor
  · intro h
    exact absurd (h.getFiles []) (by decide)
  · intro h
    exact absurd (h.getFiles []) (by decide)

end LuaTT.FileListing
