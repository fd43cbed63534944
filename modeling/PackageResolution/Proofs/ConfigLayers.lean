import PackageResolution.Loading
import PackageResolution.Proofs.Computations
import Mathlib.Data.List.Induction
/-!
# Layers of configuration

What is left of layers once they are merged: of a single setting, what the last layer says that sets
it; of the features, each at the first place that any layer names it. Merging can be grouped in any
way, and a layer that is merged again, or that sets nothing, changes nothing. A file that is of no use
as a layer stands for one that sets nothing, so it could as well be left out.

Main statement: `layers_merge`.
-/
namespace PackageResolution

namespace Config

variable {layers : List Config} {held news : List String} {x : String}

/-- Layers merged in order, each over those before it. -/
def mergeAll (layers : List Config) : Config := layers.foldl merge {}

/-! ## Features -/

theorem addFeature_of_mem (h : x ∈ held) : addFeature held x = held := if_pos h

theorem mem_foldl_addFeature :
    x ∈ news.foldl addFeature held ↔ x ∈ held ∨ x ∈ news := by
  induction news generalizing held with
  | nil => simp
  | cons y news ih =>
    have step : x ∈ addFeature held y ↔ x ∈ held ∨ x = y := by
      unfold addFeature
      split
      · next known =>
        constructor
        · exact .inl
        · rintro (h | rfl)
          · exact h
          · exact known
      · simp
    rw [List.foldl_cons, ih, step, List.mem_cons, or_assoc]

theorem foldl_addFeature_of_subset (h : news ⊆ held) :
    news.foldl addFeature held = held := by
  induction news with
  | nil => rfl
  | cons y news ih =>
    obtain ⟨known, rest⟩ := List.cons_subset.1 h
    rw [List.foldl_cons, addFeature_of_mem known, ih rest]

theorem nodup_foldl_addFeature (h : held.Nodup) : (news.foldl addFeature held).Nodup := by
  induction news generalizing held with
  | nil => exact h
  | cons y news ih =>
    rw [List.foldl_cons]
    refine ih ?_
    unfold addFeature
    split
    · exact h
    · next new =>
      have apart : ∀ x ∈ held, ¬ x = y := fun x hx same => new (same ▸ hx)
      simpa [List.nodup_append, h] using apart

/-- Features that are added to some, which are added in turn. -/
theorem foldl_addFeature_foldl (base : List String) :
    (news.foldl addFeature held).foldl addFeature base =
      news.foldl addFeature (held.foldl addFeature base) := by
  induction news generalizing held with
  | nil => rfl
  | cons y news ih =>
    rw [List.foldl_cons, List.foldl_cons, ih]
    congr 1
    by_cases known : y ∈ held
    · have there : y ∈ held.foldl addFeature base := mem_foldl_addFeature.2 (.inr known)
      rw [addFeature_of_mem known, addFeature_of_mem there]
    · rw [addFeature, if_neg known, List.foldl_append]
      rfl

/-- Features added one after another stand in the order in which they first come. -/
theorem foldl_addFeature_nil (news : List String) : news.foldl addFeature [] = news.eraseDups := by
  induction news using List.reverseRecOn with
  | nil => rfl
  | append_singleton news y ih =>
    rw [List.foldl_append, ih, List.eraseDups_append, List.foldl_cons, List.foldl_nil]
    by_cases known : y ∈ news
    · rw [addFeature_of_mem (List.mem_eraseDups.2 known)]
      simp [List.removeAll, known]
    · rw [addFeature, if_neg (mt List.mem_eraseDups.1 known)]
      simp [List.removeAll, known, List.eraseDups_cons]

/-! ## Merging -/

theorem merge_assoc (a b c : Config) : (a.merge b).merge c = a.merge (b.merge c) := by
  simp only [merge, foldl_addFeature_foldl, mk.injEq, true_and]
  cases c.target <;> cases c.verifyCaps <;> simp

theorem merge_self (c : Config) : c.merge c = c := by
  simp [merge, foldl_addFeature_of_subset]

/-- What a setting is after merging layers over others: the last that is set. -/
theorem setting_foldl_merge {α : Type} {setting : Config → Option α}
    (settled : ∀ c upper, setting (c.merge upper) = (setting upper <|> setting c)) (c : Config) :
    setting (layers.foldl merge c) = ((layers.filterMap setting).getLast? <|> setting c) := by
  induction layers generalizing c with
  | nil => rfl
  | cons layer layers ih =>
    rw [List.foldl_cons, ih, settled]
    cases h : setting layer with
    | none => simp [h]
    | some v =>
      cases last : (layers.filterMap setting).getLast? <;> simp [h, last, List.getLast?_cons]

theorem setting_mergeAll {α : Type} {setting : Config → Option α}
    (settled : ∀ c upper, setting (c.merge upper) = (setting upper <|> setting c))
    (unset : setting {} = none) :
    setting (mergeAll layers) = (layers.filterMap setting).getLast? := by
  simp [mergeAll, setting_foldl_merge settled, unset]

theorem features_foldl_merge (c : Config) : (layers.foldl merge c).features =
    (layers.flatMap features).foldl addFeature c.features := by
  induction layers generalizing c with
  | nil => rfl
  | cons layer layers ih =>
    rw [List.foldl_cons, ih, List.flatMap_cons, List.foldl_append]
    rfl

end Config

namespace FileTree

variable {t : FileTree} {path : Path}

/-! ## Files -/

/-- A file that cannot be a layer: there is none, its text cannot be read, or the text is not a
configuration. -/
inductive Unusable (t : FileTree) (path : Path) : Prop
  | missing (h : t.hasPath path = false)
  | unreadable {cause : AccessError} (h : t.readText path = .error cause)
  | malformed {text : String} {cause : DecodeError} (read : t.readText path = .ok text)
      (h : Config.parse text = .error cause)

theorem readText_of_missing (h : t.hasPath path = false) : ∃ e, t.readText path = .error e := by
  cases node : t.node path with
  | ok n => simp [hasPath, node, Except.toOption] at h
  | error e => exact ⟨e, by rw [readText, node]; rfl⟩

theorem loadConfig_of_readText {cause : AccessError} (h : t.readText path = .error cause) :
    t.loadConfig path = .error (.unreadable .config path cause) := by
  rw [loadConfig, readAs, h]
  rfl

/-- Files that are of no use are those that loading fails on. -/
theorem Unusable.loadConfig (h : Unusable t path) : ∃ e, t.loadConfig path = .error e := by
  cases h with
  | missing h =>
    obtain ⟨cause, h⟩ := readText_of_missing h
    exact ⟨_, loadConfig_of_readText h⟩
  | unreadable h => exact ⟨_, loadConfig_of_readText h⟩
  | @malformed text cause read h =>
    refine ⟨.undecodable .config path cause, ?_⟩
    rw [FileTree.loadConfig, readAs, read, Except.mapError]
    show (Config.parse text).mapError _ = _
    rw [h]
    rfl

/-- The layer of a file, which sets nothing where the file cannot be loaded. -/
theorem fst_configOrDefault (t : FileTree) (path : Path) :
    (t.configOrDefault path).1 = (t.loadConfig path).toOption.getD {} := by
  unfold configOrDefault
  split
  · cases t.loadConfig path <;> rfl
  · next absent =>
    obtain ⟨e, h⟩ := Unusable.loadConfig (.missing (by simpa using absent))
    rw [h]
    rfl

/-- **`fst_layeredConfig`**: the files that can be loaded are what is merged. -/
theorem fst_layeredConfig (t : FileTree) (paths : List Path) : (t.layeredConfig paths).1 =
    Config.mergeAll (paths.filterMap fun path => (t.loadConfig path).toOption) := by
  unfold layeredConfig Config.mergeAll
  generalize ({} : Config) = c
  generalize ([] : List String) = warnings
  induction paths generalizing c warnings with
  | nil => rfl
  | cons path paths ih =>
    rw [List.foldl_cons]
    dsimp only
    rw [ih, fst_configOrDefault]
    cases h : (t.loadConfig path).toOption with
    | none => simp [h, Config.merge_default]
    | some layer => simp [h]

/-- The features of merged layers are those of the files that can be loaded. -/
theorem mem_features_layeredConfig {paths : List Path} {x : String} :
    x ∈ (t.layeredConfig paths).1.features ↔
      ∃ path ∈ paths, ∃ config, t.loadConfig path = .ok config ∧ x ∈ config.features := by
  have loaded {path : Path} {config : Config} :
      (t.loadConfig path).toOption = some config ↔ t.loadConfig path = .ok config := by
    cases t.loadConfig path <;> simp [Except.toOption]
  have none : x ∉ ({} : Config).features := List.not_mem_nil
  simp only [fst_layeredConfig, Config.mergeAll, Config.features_foldl_merge,
    Config.mem_foldl_addFeature, none, false_or, List.mem_flatMap, List.mem_filterMap, loaded]
  constructor
  · rintro ⟨config, ⟨path, hpath, hconfig⟩, hx⟩
    exact ⟨path, hpath, config, hconfig, hx⟩
  · rintro ⟨path, hpath, config, hconfig, hx⟩
    exact ⟨config, ⟨path, hpath, hconfig⟩, hx⟩

/-- The target of merged layers is that of the last file that can be loaded and sets one. -/
theorem target_layeredConfig (t : FileTree) (paths : List Path) :
    (t.layeredConfig paths).1.target =
      (paths.filterMap fun path => (t.loadConfig path).toOption.bind Config.target).getLast? := by
  have settled (layers : List Config) :
      (Config.mergeAll layers).target = (layers.filterMap Config.target).getLast? :=
    Config.setting_mergeAll (fun _ _ => rfl) rfl
  rw [fst_layeredConfig, settled, List.filterMap_filterMap]

end FileTree

/-- **`layers_merge`**: of merged layers, a single setting is what the last of them says that sets it,
and the features are those of all layers in order, less the later repetitions. Layers can be grouped
in any way, and one over itself or under one that sets nothing stays as it is. A file that is of no
use as a layer can be left out. -/
theorem Config.layers_merge :
    (∀ layers, (mergeAll layers).target = (layers.filterMap target).getLast? ∧
      (mergeAll layers).verifyCaps = (layers.filterMap verifyCaps).getLast? ∧
      (mergeAll layers).features = (layers.flatMap features).eraseDups ∧
      (mergeAll layers).features.Nodup) ∧
    (∀ a b c : Config, (a.merge b).merge c = a.merge (b.merge c)) ∧
    (∀ c : Config, c.merge c = c ∧ c.merge {} = c) ∧
    (∀ t before path after, FileTree.Unusable t path →
      (t.layeredConfig (before ++ path :: after)).1 = (t.layeredConfig (before ++ after)).1) := by
  refine ⟨fun layers => ⟨?_, ?_, ?_, ?_⟩, merge_assoc, fun c => ⟨merge_self c, merge_default c⟩, ?_⟩
  · exact setting_mergeAll (fun _ _ => rfl) rfl
  · exact setting_mergeAll (fun _ _ => rfl) rfl
  · rw [mergeAll, features_foldl_merge, foldl_addFeature_nil]
  · rw [mergeAll, features_foldl_merge]
    exact nodup_foldl_addFeature List.nodup_nil
  · intro t before path after unusable
    obtain ⟨e, failed⟩ := unusable.loadConfig
    rw [FileTree.fst_layeredConfig, FileTree.fst_layeredConfig, List.filterMap_append,
      List.filterMap_append, List.filterMap_cons_none (by rw [failed]; rfl)]

/-- A project whose own configuration names a target and is cut off in the line after that. -/
def cutOffConfig : FileTree where
  top := .dir [
    ("home", .dir [("config.toml", .file "[build]\ntarget = \"t\"\n".toUTF8)]),
    ("p", .dir [(".keelson", .dir [
      ("config.toml", .file "[build]\ntarget = \"u\"\nfeatures = ".toUTF8)])])]
  current := []

theorem Config.layers_merge_cutOffConfig :
    (cutOffConfig.layeredConfig ["home/config.toml", "p/.keelson/config.toml"]).1 =
      (cutOffConfig.layeredConfig ["home/config.toml"]).1 ∧
    (cutOffConfig.layeredConfig ["home/config.toml"]).1.target = some "t" := by
  have reads : (cutOffConfig.readText "p/.keelson/config.toml").toOption.any
      (fun text => !(Config.parse text).isOk) = true := by
    decide +kernel
  obtain ⟨text, read, cutOff⟩ := exists_eq_ok_of_any reads
  have unusable : cutOffConfig.Unusable "p/.keelson/config.toml" := by
    cases parsed : Config.parse text with
    | ok c => simp [parsed, Except.isOk, Except.toBool] at cutOff
    | error cause => exact .malformed read parsed
  exact ⟨Config.layers_merge.2.2.2 _ ["home/config.toml"] _ [] unusable, by decide +kernel⟩

end PackageResolution
