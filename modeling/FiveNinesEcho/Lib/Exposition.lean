import FiveNinesEcho.Lib.Lines
import Mathlib.Data.List.Nodup

/-!
# The text format of metrics

A file in the Prometheus text format is a row of families: a `HELP` and a `TYPE` line and then a
line for each sample, its labels in braces. `exposition` writes such a file and `readExposition` is
a scraper's reading of it. Names and label values are written as they are, so only what needs no
escape (`Family.Plain`) is read back.
-/

namespace FiveNinesEcho.Lib

structure Sample where
  labels : List (String × String)
  value : String
  deriving Repr, DecidableEq

structure Family where
  name : String
  help : String
  kind : String
  samples : List Sample
  deriving Repr, DecidableEq

/-! ### Writing -/

def labelText (kv : String × String) : String := kv.1 ++ "=\"" ++ kv.2 ++ "\""

def labelsText : List (String × String) → String
  | [] => ""
  | [kv] => labelText kv
  | kv :: ls => labelText kv ++ "," ++ labelsText ls

def sampleLine (name : String) : Sample → String
  | ⟨[], value⟩ => name ++ " " ++ value
  | ⟨labels, value⟩ => name ++ "\x7b" ++ labelsText labels ++ "\x7d " ++ value

def Family.header (f : Family) : List String :=
  ["# HELP " ++ f.name ++ " " ++ f.help, "# TYPE " ++ f.name ++ " " ++ f.kind]

def Family.lines (f : Family) : List String := f.header ++ f.samples.map (sampleLine f.name)

/-- Every line ended. -/
def unlines (ls : List String) : String := ls.foldr (fun l text => l ++ "\n" ++ text) ""

def exposition (fs : List Family) : String := unlines (fs.flatMap Family.lines)

/-! ### Reading -/

/-- What stands before the first `c` and what follows it. -/
def cut (c : Char) : List Char → Option (List Char × List Char)
  | [] => none
  | x :: xs => if x = c then some ([], xs) else (cut c xs).map fun p => (x :: p.1, p.2)

def isNameChar (c : Char) : Bool := c.isAlphanum || c = '_' || c = ':'

def readLabels : ℕ → List Char → Option (List (String × String) × List Char)
  | 0, _ => none
  | fuel + 1, cs => do
    let (key, cs) ← cut '=' cs
    let cs ← match cs with
      | '"' :: cs => some cs
      | _ => none
    let (value, cs) ← cut '"' cs
    let label := (String.ofList key, String.ofList value)
    match cs with
    | '\x7d' :: cs => return ([label], cs)
    | ',' :: cs =>
      let (ls, cs) ← readLabels fuel cs
      return (label :: ls, cs)
    | _ => none

def readSample (cs : List Char) : Option (String × Sample) :=
  let name := String.ofList (cs.takeWhile isNameChar)
  match cs.dropWhile isNameChar with
  | ' ' :: value => some (name, ⟨[], String.ofList value⟩)
  | '\x7b' :: cs => match readLabels cs.length cs with
    | some (labels, ' ' :: value) => some (name, ⟨labels, String.ofList value⟩)
    | _ => none
  | _ => none

inductive ExpositionLine where
  | help (name text : String)
  | kind (name text : String)
  | sample (name : String) (s : Sample)
  deriving Repr, DecidableEq

def readHeader (line : String → String → ExpositionLine) (cs : List Char) :
    Option ExpositionLine :=
  (cut ' ' cs).map fun p => line (String.ofList p.1) (String.ofList p.2)

def readLine (cs : List Char) : Option ExpositionLine :=
  if "# HELP ".toList.isPrefixOf cs then readHeader .help (cs.drop 7)
  else if "# TYPE ".toList.isPrefixOf cs then readHeader .kind (cs.drop 7)
  else (readSample cs).map fun p => .sample p.1 p.2

def takeSamples (name : String) : List ExpositionLine → List Sample × List ExpositionLine
  | .sample name' s :: ls =>
    if name' = name then ((takeSamples name ls).1.cons s, (takeSamples name ls).2)
    else ([], .sample name' s :: ls)
  | ls => ([], ls)

def readFamilies : ℕ → List ExpositionLine → Option (List Family)
  | _, [] => some []
  | fuel + 1, .help name help :: .kind name' kind :: ls =>
    if name' = name then
      (readFamilies fuel (takeSamples name ls).2).map
        (⟨name, help, kind, (takeSamples name ls).1⟩ :: ·)
    else none
  | _, _ => none

def readExposition (text : String) : Option (List Family) :=
  if rest '\n' text.toList = [] then
    ((lines '\n' text.toList).mapM readLine).bind fun ls => readFamilies ls.length ls
  else none

/-! ### What is written is read -/

def Sample.Plain (s : Sample) : Prop :=
  (∀ kv ∈ s.labels, (∀ c ∈ kv.1.toList, isNameChar c = true) ∧
    ∀ c ∈ kv.2.toList, c ≠ '"' ∧ c ≠ '\\' ∧ c ≠ '\n') ∧ '\n' ∉ s.value.toList

structure Family.Plain (f : Family) : Prop where
  name : f.name ≠ "" ∧ ∀ c ∈ f.name.toList, isNameChar c = true
  help : '\n' ∉ f.help.toList
  kind : '\n' ∉ f.kind.toList
  samples : ∀ s ∈ f.samples, s.Plain

theorem cut_append {c : Char} {l : List Char} (h : c ∉ l) (r : List Char) :
    cut c (l ++ c :: r) = some (l, r) := by
  induction l with
  | nil => simp [cut]
  | cons x l ih =>
    simp only [List.mem_cons, not_or] at h
    simp [cut, Ne.symm h.1, ih h.2]

theorem nameChars_of_all {l : List Char} (h : l.all isNameChar = true) :
    ∀ c ∈ l, isNameChar c = true :=
  List.all_eq_true.mp h

theorem notMem_of_nameChars {c : Char} {l : List Char} (h : ∀ x ∈ l, isNameChar x = true)
    (hc : isNameChar c = false) : c ∉ l := by
  intro hmem
  rw [h c hmem] at hc
  cases hc

theorem labelText_toList (kv : String × String) :
    (labelText kv).toList = kv.1.toList ++ '=' :: '"' :: (kv.2.toList ++ ['"']) := by
  simp [labelText]

theorem readLabels_text (ls : List (String × String)) (hne : ls ≠ [])
    (h : ∀ kv ∈ ls, (∀ c ∈ kv.1.toList, isNameChar c = true) ∧
      ∀ c ∈ kv.2.toList, c ≠ '"' ∧ c ≠ '\\' ∧ c ≠ '\n')
    (fuel : ℕ) (hfuel : ls.length ≤ fuel) (r : List Char) :
    readLabels fuel ((labelsText ls).toList ++ '\x7d' :: r) = some (ls, r) := by
  induction ls generalizing fuel with
  | nil => exact absurd rfl hne
  | cons kv ls ih =>
    obtain ⟨fuel, rfl⟩ : ∃ n, fuel = n + 1 := ⟨fuel - 1, by simp at hfuel; omega⟩
    obtain ⟨hkey, hvalue⟩ := h kv (List.mem_cons_self ..)
    have heq : '=' ∉ kv.1.toList := notMem_of_nameChars hkey (by decide)
    have hquote : '"' ∉ kv.2.toList := fun hmem => (hvalue _ hmem).1 rfl
    cases ls with
    | nil =>
      simp only [labelsText, labelText_toList, List.append_assoc, List.cons_append,
        readLabels, cut_append heq, cut_append hquote, Option.bind_eq_bind, Option.bind_some,
        List.nil_append, String.ofList_toList]
      rfl
    | cons kv' ls =>
      have htail := ih (by simp) (fun x hx => h x (List.mem_cons_of_mem _ hx)) fuel
        (by simp only [List.length_cons] at hfuel ⊢; omega)
      have htext : (labelsText (kv :: kv' :: ls)).toList ++ '\x7d' :: r =
          kv.1.toList ++ '=' :: '"' :: (kv.2.toList ++ '"' :: ',' ::
            ((labelsText (kv' :: ls)).toList ++ '\x7d' :: r)) := by
        simp [labelsText, labelText_toList]
      rw [htext]
      simp only [readLabels, cut_append heq, cut_append hquote, Option.bind_eq_bind,
        Option.bind_some, htail, String.ofList_toList]
      rfl

theorem takeWhile_nameChars {name : List Char} (hname : ∀ c ∈ name, isNameChar c = true) {x : Char}
    (hx : isNameChar x = false) (r : List Char) :
    (name ++ x :: r).takeWhile isNameChar = name ∧
    (name ++ x :: r).dropWhile isNameChar = x :: r := by
  rw [List.takeWhile_append_of_pos hname, List.dropWhile_append_of_pos hname,
    List.takeWhile_cons_of_neg (by simp [hx]), List.dropWhile_cons_of_neg (by simp [hx])]
  simp

theorem length_le_labelsText (ls : List (String × String)) :
    ls.length ≤ (labelsText ls).toList.length := by
  induction ls with
  | nil => simp
  | cons kv ls ih =>
    cases ls with
    | nil =>
      simp only [labelsText, labelText_toList, List.length_append, List.length_cons]
      omega
    | cons kv' ls =>
      have htext : (labelsText (kv :: kv' :: ls)).toList =
          (labelText kv).toList ++ ',' :: (labelsText (kv' :: ls)).toList := by
        simp [labelsText]
      simp only [htext, List.length_append, List.length_cons] at ih ⊢
      omega

theorem readSample_line {name : String} (hname : ∀ c ∈ name.toList, isNameChar c = true)
    {s : Sample} (hs : s.Plain) : readSample (sampleLine name s).toList = some (name, s) := by
  obtain ⟨labels, value⟩ := s
  cases labels with
  | nil =>
    have hline : (sampleLine name ⟨[], value⟩).toList = name.toList ++ ' ' :: value.toList := by
      simp [sampleLine]
    obtain ⟨htake, hdrop⟩ := takeWhile_nameChars hname (x := ' ') (by decide) value.toList
    simp only [readSample, hline, htake, hdrop, String.ofList_toList]
  | cons kv ls =>
    have hline : (sampleLine name ⟨kv :: ls, value⟩).toList = name.toList ++ '\x7b' ::
        ((labelsText (kv :: ls)).toList ++ '\x7d' :: ' ' :: value.toList) := by
      simp [sampleLine]
    obtain ⟨htake, hdrop⟩ := takeWhile_nameChars hname (x := '\x7b') (by decide)
      ((labelsText (kv :: ls)).toList ++ '\x7d' :: ' ' :: value.toList)
    have hfuel : (kv :: ls).length ≤
        ((labelsText (kv :: ls)).toList ++ '\x7d' :: ' ' :: value.toList).length := by
      have hle := length_le_labelsText (kv :: ls)
      simp only [List.length_append]
      omega
    simp only [readSample, hline, htake, hdrop, readLabels_text (kv :: ls) (by simp) hs.1 _ hfuel,
      String.ofList_toList]

theorem readHeader_text (line : String → String → ExpositionLine) {name : String}
    (hname : ∀ c ∈ name.toList, isNameChar c = true) (text : String) :
    readHeader line (name.toList ++ ' ' :: text.toList) = some (line name text) := by
  have hspace : ' ' ∉ name.toList := notMem_of_nameChars hname (by decide)
  simp only [readHeader, cut_append hspace, Option.map_some, String.ofList_toList]

/-- The lines of a family as they are read. -/
def Family.read (f : Family) : List ExpositionLine :=
  .help f.name f.help :: .kind f.name f.kind :: f.samples.map (.sample f.name)

theorem not_isPrefixOf_name {tag name : List Char} (hne : name ≠ [])
    (hname : ∀ c ∈ name, isNameChar c = true) (r : List Char) :
    ('#' :: tag).isPrefixOf (name ++ r) = false := by
  cases name with
  | nil => exact absurd rfl hne
  | cons x name =>
    have hx : '#' ≠ x := by
      rintro rfl
      exact absurd (hname '#' (List.mem_cons_self ..)) (by decide)
    simp [List.isPrefixOf, hx]

theorem Family.read_lines {f : Family} (hf : f.Plain) :
    f.lines.map (fun l => readLine l.toList) = f.read.map some := by
  have hhelp : readLine ("# HELP " ++ f.name ++ " " ++ f.help).toList =
      some (.help f.name f.help) := by
    have htext : ("# HELP " ++ f.name ++ " " ++ f.help).toList =
        "# HELP ".toList ++ (f.name.toList ++ ' ' :: f.help.toList) := by
      simp
    rw [readLine, htext, if_pos (by simp), List.drop_left' (by rfl)]
    exact readHeader_text .help hf.name.2 f.help
  have hkind : readLine ("# TYPE " ++ f.name ++ " " ++ f.kind).toList =
      some (.kind f.name f.kind) := by
    have htext : ("# TYPE " ++ f.name ++ " " ++ f.kind).toList =
        "# TYPE ".toList ++ (f.name.toList ++ ' ' :: f.kind.toList) := by
      simp
    rw [readLine, htext, if_neg (by simp [List.isPrefixOf]), if_pos (by simp),
      List.drop_left' (by rfl)]
    exact readHeader_text .kind hf.name.2 f.kind
  have hsamples : f.samples.map (fun s => readLine (sampleLine f.name s).toList) =
      f.samples.map fun s => some (.sample f.name s) := by
    refine List.map_congr_left fun s hs => ?_
    have hne : f.name.toList ≠ [] := by simpa using hf.name.1
    obtain ⟨r, hr⟩ : ∃ r, (sampleLine f.name s).toList = f.name.toList ++ r := by
      obtain ⟨_ | ⟨kv, ls⟩, value⟩ := s
      · exact ⟨' ' :: value.toList, by simp [sampleLine]⟩
      · exact ⟨'\x7b' :: ((labelsText (kv :: ls)).toList ++ '\x7d' :: ' ' :: value.toList),
          by simp [sampleLine]⟩
    have hhash : ∀ tag, ¬ ('#' :: tag).isPrefixOf (sampleLine f.name s).toList = true := by
      intro tag
      rw [hr, not_isPrefixOf_name hne hf.name.2 r]
      exact Bool.false_ne_true
    have hh : ¬ "# HELP ".toList.isPrefixOf (sampleLine f.name s).toList = true :=
      hhash " HELP ".toList
    have ht : ¬ "# TYPE ".toList.isPrefixOf (sampleLine f.name s).toList = true :=
      hhash " TYPE ".toList
    rw [readLine, if_neg hh, if_neg ht, readSample_line hf.name.2 (hf.samples s hs)]
    rfl
  simp only [Family.lines, Family.header, Family.read, List.map_cons, List.map_map, hhelp, hkind,
    List.cons_append, List.nil_append]
  exact congrArg (fun l => _ :: _ :: l) hsamples
theorem takeSamples_read (name : String) (ss : List Sample) (ls : List ExpositionLine)
    (hls : ∀ n s ls', ls ≠ .sample n s :: ls') :
    takeSamples name (ss.map (.sample name) ++ ls) = (ss, ls) := by
  induction ss with
  | nil =>
    unfold takeSamples
    split
    · next n s ls' heq => exact absurd heq (hls n s ls')
    · rfl
  | cons s ss ih => simp only [List.map_cons, List.cons_append, takeSamples, if_true, ih]

theorem readFamilies_read (fs : List Family) (fuel : ℕ) (hfuel : fs.length ≤ fuel) :
    readFamilies fuel (fs.flatMap Family.read) = some fs := by
  induction fs generalizing fuel with
  | nil => simp [readFamilies]
  | cons f fs ih =>
    obtain ⟨fuel, rfl⟩ : ∃ n, fuel = n + 1 := ⟨fuel - 1, by simp at hfuel; omega⟩
    have hnext : ∀ n s ls', fs.flatMap Family.read ≠ .sample n s :: ls' := by
      intro n s ls'
      cases fs with
      | nil => simp
      | cons f' fs => simp [Family.read]
    have htake := takeSamples_read f.name f.samples _ hnext
    have htail := ih fuel (by simp only [List.length_cons] at hfuel; omega)
    simp only [List.flatMap_cons, Family.read, List.cons_append, readFamilies, if_true] at htail ⊢
    rw [htake, htail]
    rfl

theorem unlines_toList (ls : List String) :
    (unlines ls).toList = (ls.map String.toList).flatMap (· ++ ['\n']) := by
  unfold unlines
  induction ls with
  | nil => rfl
  | cons l ls ih =>
    rw [List.foldr_cons, String.toList_append, String.toList_append, ih]
    simp

theorem mapM_eq_some_of_map {α β : Type*} {f : α → Option β} {xs : List α} {ys : List β}
    (h : xs.map f = ys.map some) : xs.mapM f = some ys := by
  induction xs generalizing ys with
  | nil =>
    cases ys with
    | nil => rfl
    | cons y ys => cases h
  | cons x xs ih =>
    cases ys with
    | nil => cases h
    | cons y ys =>
      simp only [List.map_cons, List.cons.injEq] at h
      simp [List.mapM_cons, h.1, ih h.2]

theorem Family.Plain.oneLine {f : Family} (hf : f.Plain) : ∀ l ∈ f.lines, '\n' ∉ l.toList := by
  have hname : '\n' ∉ f.name.toList := notMem_of_nameChars hf.name.2 (by decide)
  intro l hl
  simp only [Family.lines, Family.header, List.cons_append, List.nil_append, List.mem_cons,
    List.mem_map] at hl
  rcases hl with rfl | rfl | ⟨s, hs, rfl⟩
  · simp [hname, hf.help]
  · simp [hname, hf.kind]
  · obtain ⟨hlabels, hvalue⟩ := hf.samples s hs
    have htext : ∀ ls : List (String × String), (∀ kv ∈ ls, kv ∈ s.labels) →
        '\n' ∉ (labelsText ls).toList := by
      intro ls
      induction ls with
      | nil => simp [labelsText]
      | cons kv ls ih =>
        intro hsub
        obtain ⟨hkey, hval⟩ := hlabels kv (hsub kv (List.mem_cons_self ..))
        have htail := ih fun x hx => hsub x (List.mem_cons_of_mem _ hx)
        have hk : '\n' ∉ kv.1.toList := notMem_of_nameChars hkey (by decide)
        have hv : '\n' ∉ kv.2.toList := fun hmem => (hval _ hmem).2.2 rfl
        cases ls with
        | nil => simp [labelsText, labelText_toList, hk, hv]
        | cons kv' ls => simp [labelsText, labelText_toList, hk, hv, htail]
    obtain ⟨_ | ⟨kv, ls⟩, value⟩ := s
    · simp [sampleLine, hname, hvalue]
    · simp [sampleLine, hname, hvalue, htext (kv :: ls) fun _ h => h]

/-- A scraper reads from a file the families that were written. -/
theorem readExposition_exposition (fs : List Family) (h : ∀ f ∈ fs, f.Plain) :
    readExposition (exposition fs) = some fs := by
  have hline : ∀ l ∈ (fs.flatMap Family.lines).map String.toList, '\n' ∉ l := by
    intro l hl
    obtain ⟨l', hl', rfl⟩ := List.mem_map.mp hl
    obtain ⟨f, hf, hmem⟩ := List.mem_flatMap.mp hl'
    exact (h f hf).oneLine l' hmem
  have hlines := lines_flatMap_append '\n' _ [] hline
  have hrest := rest_flatMap_append '\n' ((fs.flatMap Family.lines).map String.toList) []
  rw [List.append_nil] at hlines hrest
  have hread : ((fs.flatMap Family.lines).map String.toList).map readLine =
      (fs.flatMap Family.read).map some := by
    rw [List.map_map]
    clear hlines hrest hline
    induction fs with
    | nil => rfl
    | cons f fs ih =>
      simp only [List.flatMap_cons, List.map_append]
      exact congrArg₂ _ (f.read_lines (h f (List.mem_cons_self ..)))
        (ih fun g hg => h g (List.mem_cons_of_mem _ hg))
  have hfuel : fs.length ≤ (fs.flatMap Family.read).length := by
    clear hlines hrest hline hread h
    induction fs with
    | nil => simp
    | cons f fs ih =>
      simp only [List.flatMap_cons, List.length_append, List.length_cons, Family.read]
      omega
  rw [readExposition, exposition, unlines_toList, hrest, if_pos (by rfl), hlines, lines,
    List.append_nil, mapM_eq_some_of_map hread, Option.bind_some]
  exact readFamilies_read fs _ hfuel
/-! ### Series -/

/-- What a scraper tells samples apart by. -/
def series (fs : List Family) : List (String × List (String × String)) :=
  fs.flatMap fun f => f.samples.map fun s => (f.name, s.labels)

theorem series_nodup {fs : List Family} (hnames : (fs.map Family.name).Nodup)
    (h : ∀ f ∈ fs, (f.samples.map Sample.labels).Nodup) : (series fs).Nodup := by
  rw [series, List.nodup_flatMap]
  constructor
  · intro f hf
    have hpairs := (h f hf).map (f := fun l => (f.name, l)) fun a b hab => (Prod.mk.inj hab).2
    rwa [List.map_map] at hpairs
  · refine (List.pairwise_map.mp hnames).imp ?_
    intro f g hne
    simp only [Function.onFun, List.disjoint_left, List.mem_map, not_exists, not_and]
    rintro x ⟨s, -, rfl⟩ t - heq
    exact hne (Prod.mk.inj heq).1.symm

end FiveNinesEcho.Lib
