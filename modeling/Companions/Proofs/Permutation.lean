import Companions.Proofs.Disk
import Companions.Proofs.Integrity
import Companions.Proofs.Order
/-!
The order of the references. Two runs whose references are the same but for their order come to the
same, as long as directories that are taken for one offer the same libraries. That is not always so:
a directory is probed under the first spelling that the references give it, and under a long one the
path of a library can come to be too long.
-/
namespace Companions.Processor

variable {σ : Type} [FileSystem σ] {s : σ}

theorem concluded_congr {p : Processor} {c d : Context} (alike : c.Alike d) (budget : Nat)
    (m : Image) : p.concluded budget m c = p.concluded budget m d := by
  rw [concluded, concluded, Context.postProcess_congr alike]

/-- Two runs over an image whose references are the same but for their order come to the same. The
files and the cache have to be orderly, every reference has to load, and where the directories of
two references are taken for one, each has to offer the libraries that the other offers, of those
that are asked for. -/
theorem run_perm {p : Processor} (orderly : Orderly s p.cache) {references references' : List Path}
    (perm : references.Perm references')
    (loads : ∀ path ∈ references, ∃ m, (p.cache.loads s path).2 = .ok m)
    (m : Image) (alike : ∀ path ∈ references, ∀ path' ∈ references, ∀ d e, path.parent? = some d →
      path'.parent? = some e → e.same d → ∀ i, Asked s p.cache m i → Resolver.Offers s i d e)
    (budget : Nat) :
    ((p.run budget m references).run s).value.2 =
      ((p.run budget m references').run s).value.2 := by
  have served : ∀ path ∈ references, ∃ i, p.cache.Serves s path i := by
    intro path hp
    obtain ⟨m, loaded⟩ := loads path hp
    obtain ⟨e, failed, -⟩ | ⟨c, m, -, serves, -⟩ :=
      Cache.loads_cases (s := s) orderly.keyed path
    · rw [failed] at loaded
      cases loaded
    · exact ⟨_, serves⟩
  have among := fun path => (perm.mem_iff (a := path)).symm
  -- once seeded the two have the same, and the context knows no names yet
  obtain ⟨r, seeds, seeded⟩ := Resolver.seeds_seeded orderly
    (Resolver.seeded_nil orderly references p.config.resolveAdditional)
    fun path hp => ⟨hp, served path hp⟩
  obtain ⟨r', seeds', seeded'⟩ := Resolver.seeds_seeded orderly
    (Resolver.seeded_nil orderly references' p.config.resolveAdditional)
    fun path hp => ⟨hp, served path ((among path).mp hp)⟩
  rw [List.nil_append] at seeded seeded'
  have matched : Resolver.Matched s p.cache references references' (Asked s p.cache m)
      (fun _ => False) r r' :=
    { ready := seeded.ready
      ready' := seeded'.ready
      additional := seeded.additional.trans seeded'.additional.symm
      forth := seeded.covered seeded' (fun path => (among path).mpr) fun path hp path' hp' =>
        alike path ((among path).mp hp) path' ((among path').mp hp')
      back := seeded'.covered seeded (fun path => (among path).mp) alike }
  have built := Context.close_alike orderly (fun m' genuine i hi => .inr ⟨m', genuine, hi⟩)
    maxReferences (c := { target := m }) (d := { target := m }) ⟨rfl, rfl⟩
    (matched.mono fun _ => False.elim) fun i hi => .inl hi
  rw [← Context.value_build, ← Context.value_build] at built
  rw [run_value, run_value, value_opened, value_opened, seeds, seeds']
  dsimp only
  exact concluded_congr built budget m

/-! ## A directory in two spellings -/

/-- A library without types. -/
def systemLibrary : Image := { identity := { name := "Sys" } }

/-- One directory with two libraries. -/
def libraryDisk : Disk where
  entries := [(["lib"], .directory), (["lib", "x"], .directory),
    (["lib", "x", "Sys.dll"], .file systemLibrary.encode.image),
    (["lib", "x", "Host.dll"], .file hostLibrary.encode.image)]

/-- The libraries on the disk. -/
inductive Stored : Image → Prop where
  | system : Stored systemLibrary
  | host : Stored hostLibrary

/-- Their directory, spelled with so many more slashes than it takes. -/
def libraries (n : Nat) : Path := .beside (['l', 'i', 'b'] ++ List.replicate n '/') ['x']

/-- The file of a library there. -/
def libraryFile (n : Nat) (l : Image) (extension : String) : Path :=
  .beside (libraries n).text.toList (l.name ++ "." ++ extension).toList

theorem inward_lib (n : Nat) : Path.Inward (['l', 'i', 'b'] ++ List.replicate n '/') :=
  ⟨'l', _, rfl, by decide, by decide⟩

theorem named_x : Path.Named ['x'] := ⟨by decide, by decide, by decide, by decide⟩

theorem libraries_same (n n' : Nat) : (libraries n).same (libraries n') :=
  Path.same_padded (inward_lib 0) named_x n n'

theorem size_libraryFile (n : Nat) (l : Image) (extension : String) :
    (libraryFile n l extension).text.utf8ByteSize =
      n + 7 + l.name.utf8ByteSize + extension.utf8ByteSize := by
  have slashes : (String.ofList (List.replicate n '/')).utf8ByteSize = n := by
    induction n with
    | zero => rfl
    | succ n ih =>
        rw [List.replicate_succ, String.ofList_cons, String.utf8ByteSize_append, ih]
        exact Nat.add_comm 1 n
  have front : (String.ofList ['l', 'i', 'b']).utf8ByteSize = 3 := by decide
  have back : (String.ofList ['x']).utf8ByteSize = 1 := by decide
  have dot : ".".utf8ByteSize = 1 := by decide
  rw [libraryFile, Path.size_beside, String.ofList_toList, String.ofList_toList, libraries,
    Path.size_beside, String.ofList_append, String.utf8ByteSize_append, String.utf8ByteSize_append,
    String.utf8ByteSize_append, slashes]
  omega

theorem libraryDisk_linkless : libraryDisk.Linkless := by
  intro place target there
  rcases Disk.entry?_listed there with ⟨-, other⟩ | listed
  · cases other
  · simp [libraryDisk] at listed

namespace Stored

variable {l l' : Image} {n : Nat} {extension : String}

theorem stem (h : Stored l) : Path.Segment l.name.toList := by
  cases h <;> exact ⟨by decide, by decide, by decide⟩

theorem named (h : Stored l) (plain : '/' ∉ extension.toList) :
    Path.Named (l.name ++ "." ++ extension).toList := by
  have dotted : (l.name ++ "." ++ extension).toList = l.name.toList ++ '.' :: extension.toList := by
    simp
  exact dotted ▸ h.stem.named plain

theorem parent? (h : Stored l) (n : Nat) :
    (libraryFile n l Name.imageExtension).parent? = some (libraries n) :=
  Path.parent?_beside (inward_lib n) named_x (h.named (by decide))

theorem symbolsPath (h : Stored l) (n : Nat) :
    Image.symbolsPath (libraryFile n l Name.imageExtension) =
      libraryFile n l Name.symbolsExtension := by
  have plain : '/' ∉ Name.imageExtension.toList ∧ '.' ∉ Name.imageExtension.toList := by decide
  unfold Image.symbolsPath libraryFile
  simpa using Path.withExtension_beside h.stem plain.1 plain.2 Name.symbolsExtension

theorem candidate (h : Stored l) (n : Nat) :
    Resolver.candidate l.identity (libraries n) = libraryFile n l Name.imageExtension :=
  Path.join_beside named_x (h.named (by decide))

/-- Every spelling leads to the same place. -/
theorem resolve (h : Stored l) (n : Nat)
    (known : extension = Name.imageExtension ∨ extension = Name.symbolsExtension) :
    libraryDisk.resolve true (libraryFile n l extension) =
      .ok ["lib", "x", l.name ++ "." ++ extension] := by
  have plain : '/' ∉ (l.name ++ "." ++ extension).toList ∧
      '\x00' ∉ (l.name ++ "." ++ extension).toList := by
    cases h <;> rcases known with rfl | rfl <;> decide
  have walked : libraryDisk.walk true ["lib"] ["x", l.name ++ "." ++ extension] =
      .arrived ["lib", "x", l.name ++ "." ++ extension] := by
    cases h <;> rcases known with rfl | rfl <;> rfl
  have chars : (libraryFile n l extension).text.toList =
      (['l', 'i', 'b'] ++ List.replicate n '/') ++
        '/' :: (['x'] ++ '/' :: (l.name ++ "." ++ extension).toList) := by
    rw [libraryFile, Path.toList_beside, libraries, Path.toList_beside]
    simp
  generalize l.name ++ "." ++ extension = file at plain walked chars ⊢
  have segments : Disk.segments (libraryFile n l extension).text =
      "lib" :: (List.replicate n "" ++ ["x", file]) := by
    have lib : '/' ∉ ['l', 'i', 'b'] := by decide
    rw [Disk.segments, chars, Text.pieces_cut, Text.pieces_cut, Text.pieces_padded,
      Text.pieces_of_notMem lib, Text.pieces_of_notMem named_x.plain, Text.pieces_of_notMem plain.1]
    simp
  have arrived := calc
    libraryDisk.walk true [] ("lib" :: (List.replicate n "" ++ ["x", file]))
    _ = libraryDisk.walk true ["lib"] (List.replicate n "" ++ ["x", file]) := by rfl
    _ = libraryDisk.walk true ["lib"] ["x", file] := Disk.walk_blanks (by rfl) n _
    _ = .arrived ["lib", "x", file] := walked
  have nonempty : (libraryFile n l extension).isEmpty = false := by
    rw [Path.isEmpty, chars]
    rfl
  have text : (libraryFile n l extension).text.toList.contains '\x00' = false := by
    rw [chars]
    simp [plain]
  have relative : Disk.origin libraryDisk.working (libraryFile n l extension).text = [] := by
    rw [Disk.origin, chars]
    rfl
  rw [Disk.resolve, nonempty, text, relative, segments, if_neg Bool.false_ne_true,
    if_neg Bool.false_ne_true]
  exact libraryDisk_linkless.follow.mpr arrived

theorem listed (h : Stored l) :
    libraryDisk.entry? ["lib", "x", l.name ++ "." ++ Name.imageExtension] =
      some (.file l.encode.image) := by
  cases h <;> rfl

/-- A library can be read under the spellings that leave its path short enough. -/
theorem readAt (h : Stored l) (n : Nat) :
    libraryDisk.readAt (libraryFile n l Name.imageExtension) =
      if 4085 < n + l.name.utf8ByteSize then none else some l.encode.image := by
  have extension : Name.imageExtension.utf8ByteSize = 3 := by decide
  rw [Disk.readAt_of_resolve (h.resolve n (.inl rfl)), h.listed, size_libraryFile,
    extension, Disk.maxPath]
  congr 1
  simp only [eq_iff_iff]
  omega

theorem read (h : Stored l) : Image.read l.encode.image none = .ok l := by
  have valid : l.Valid := by cases h <;> exact Image.validate_ok_iff.mp (by rfl)
  have addressed : l.Addressed := by
    cases h with
    | system => exact ⟨nofun, nofun⟩
    | host => exact Image.Valid.addressed valid (by decide)
  have shallow : l.envelope.depth ≤ Json.maxNesting := by cases h <;> decide +kernel
  have rebuilt : l.content.rebuildLookup = l := by cases h <;> rfl
  rw [Image.read_encode_bare valid addressed shallow, rebuilt]

theorem loaded (h : Stored l) (short : n + l.name.utf8ByteSize ≤ 4085) :
    Image.loaded libraryDisk (libraryFile n l Name.imageExtension) = .ok l := by
  have file : FileSystem.read libraryDisk (libraryFile n l Name.imageExtension) =
      some l.encode.image := (h.readAt n).trans (if_neg (Nat.not_lt.mpr short))
  have missing : libraryDisk.readAt (libraryFile n l Name.symbolsExtension) = none := by
    have none : libraryDisk.entry? ["lib", "x", l.name ++ "." ++ Name.symbolsExtension] = none := by
      cases h <;> rfl
    rw [Disk.readAt_of_resolve (h.resolve n (.inr rfl)), none, ite_self]
  have bare : FileSystem.isFile libraryDisk
      (Image.symbolsPath (libraryFile n l Name.imageExtension)) = false := by
    rw [h.symbolsPath]
    exact congrArg Option.isSome missing
  rw [Image.loaded_bare file bare, h.read]

/-- The canonical path of a library. -/
def key (l : Image) : Path :=
  ⟨"/" ++ "/".intercalate ["lib", "x", l.name ++ "." ++ Name.imageExtension]⟩

theorem keyOf (h : Stored l) (n : Nat) :
    Cache.keyOf libraryDisk (libraryFile n l Name.imageExtension) = key l :=
  Disk.keyOf_of_resolve (h.resolve n (.inl rfl)) h.listed

theorem apart (h : Stored l) (h' : Stored l') :
    l = l' ∨ key l ≠ key l' ∧ l.identity ≠ l'.identity := by
  cases h <;> cases h'
  · exact .inl rfl
  · exact .inr (by decide)
  · exact .inr (by decide)
  · exact .inl rfl

end Stored

/-- What can be read is one of the libraries. -/
theorem libraryDisk_read {p : Path} {bytes : Bytes} (read : libraryDisk.readAt p = some bytes) :
    ∃ l, Stored l ∧ bytes = l.encode.image ∧
      libraryDisk.resolve true p = .ok ["lib", "x", l.name ++ "." ++ Name.imageExtension] := by
  obtain ⟨-, place, leads, there⟩ := Disk.readAt_eq_some.mp read
  rcases Disk.entry?_listed there with ⟨-, other⟩ | listed
  · cases other
  · simp only [libraryDisk, List.mem_cons, Prod.mk.injEq, reduceCtorEq, and_false,
      DiskEntry.file.injEq, List.not_mem_nil, or_false, false_or] at listed
    rcases listed with ⟨rfl, rfl⟩ | ⟨rfl, rfl⟩
    · exact ⟨_, .system, rfl, leads⟩
    · exact ⟨_, .host, rfl, leads⟩

/-- What can be loaded has the content of one of them. -/
theorem libraryDisk_loaded {p : Path} {m : Image} (loaded : Image.loaded libraryDisk p = .ok m) :
    ∃ l, Stored l ∧ m.content = l.content ∧
      libraryDisk.resolve true p = .ok ["lib", "x", l.name ++ "." ++ Name.imageExtension] := by
  obtain ⟨bytes, symbols, there, read⟩ := Image.loaded_file loaded
  obtain ⟨l, stored, rfl, leads⟩ := libraryDisk_read there
  exact ⟨l, stored, Image.content_of_reads read stored.read, leads⟩

theorem libraryDisk_orderly : Orderly libraryDisk {} where
  keyed := Cache.keyed_empty
  files p q bytes bytes' same read read' := by
    obtain ⟨l, stored, rfl, leads⟩ := libraryDisk_read read
    obtain ⟨l', stored', rfl, leads'⟩ := libraryDisk_read read'
    rw [Disk.keyOf_of_resolve leads stored.listed,
      Disk.keyOf_of_resolve leads' stored'.listed] at same
    rw [(stored.apart stored').resolve_right fun other => other.1 same]
  coherent p q m m' loaded loaded' same := by
    obtain ⟨l, stored, content, -⟩ := libraryDisk_loaded loaded
    obtain ⟨l', stored', content', -⟩ := libraryDisk_loaded loaded'
    rw [Image.identity_of_content content, Image.identity_of_content content'] at same
    rw [content, content', (stored.apart stored').resolve_right fun other => other.2 same]
  named p name i library serves := by
    rcases serves with ⟨m, known, -⟩ | ⟨-, m, loaded, rfl⟩
    · cases known
    · obtain ⟨l, -, content, leads⟩ := libraryDisk_loaded loaded
      have last := Option.some.inj (libraryDisk_linkless.library library leads)
      have same := congrArg String.toList last
      rw [Image.identity_of_content content]
      refine String.toList_inj.mp (?_ : l.name.toList = name.toList)
      simpa using same

/-- A processor over an empty cache. -/
def unhosted : Processor where
  config := { contracts := host }

/-- A resolver that was seeded with the first library, and probes its directory. -/
def seeded (n : Nat) : Resolver where
  cache := (({} : Cache).enter (Stored.key systemLibrary) systemLibrary).1
  directories := [libraries n]
  used := ({} : Table Image).insertNew systemLibrary.identity.display systemLibrary
  resolveAdditional := true

/-- The first library, spelled in two ways. -/
def spellings (n n' : Nat) : List Path :=
  [libraryFile n systemLibrary Name.imageExtension,
    libraryFile n' systemLibrary Name.imageExtension]

/-- The directory is probed under the spelling that comes first. -/
theorem seeds_spellings {n : Nat} (n' : Nat) (short : n ≤ 4082) :
    ({ cache := {}, resolveAdditional := true } : Resolver).seeds libraryDisk (spellings n n') =
      (seeded n, .ok ()) := by
  have name : systemLibrary.name.utf8ByteSize = 3 := by decide
  have loaded := Stored.system.loaded (n := n) (by omega)
  have first : ({} : Cache).loads libraryDisk (libraryFile n systemLibrary Name.imageExtension) =
      ((seeded n).cache, .ok systemLibrary) := by
    rw [Cache.loads_new rfl, loaded, Stored.system.keyOf]
    rfl
  have second : (seeded n).cache.loads libraryDisk
      (libraryFile n' systemLibrary Name.imageExtension) =
        ((seeded n).cache, .ok systemLibrary) := by
    refine Cache.loads_known ?_
    rw [Stored.system.keyOf]
    rfl
  have start : ({ cache := {}, resolveAdditional := true } : Resolver).seeded (seeded n).cache
      (libraryFile n systemLibrary Name.imageExtension) systemLibrary = seeded n := by
    rw [Resolver.seeded, Stored.system.parent?]
    rfl
  have again : (seeded n).seeded (seeded n).cache
      (libraryFile n' systemLibrary Name.imageExtension) systemLibrary = seeded n := by
    have probed : (seeded n).directories.any (·.same (libraries n')) := by
      rw [seeded, List.any_cons, libraries_same, Bool.true_or]
    rw [Resolver.seeded, Stored.system.parent?]
    dsimp only [Resolver.addDirectory]
    rw [if_pos probed]
    rfl
  rw [spellings, Resolver.seeds_cons, first]
  dsimp only
  rw [start, Resolver.seeds_cons, second]
  dsimp only
  rw [again]
  rfl

theorem resolves_host (n : Nat) :
    ((seeded n).resolves libraryDisk hostLibrary.identity).2 =
      if 4081 < n then none else some hostLibrary := by
  have unused : (seeded n).used.get? hostLibrary.identity.display = none := by rfl
  have name : hostLibrary.name.utf8ByteSize = 4 := by decide
  have there : FileSystem.isFile libraryDisk (libraryFile n hostLibrary Name.imageExtension) =
      decide (n ≤ 4081) := by
    change (libraryDisk.readAt _).isSome = _
    rw [Stored.host.readAt, name]
    split <;> simp <;> omega
  rw [Resolver.resolves_new unused]
  change ((seeded n).probes libraryDisk hostLibrary.identity [libraries n]).2 = _
  rw [Resolver.probes_cons, Stored.host.candidate, there]
  by_cases short : n ≤ 4081
  · have loads : (seeded n).cache.loads libraryDisk
        (libraryFile n hostLibrary Name.imageExtension) =
          (((seeded n).cache.enter (Stored.key hostLibrary) hostLibrary).1, .ok hostLibrary) := by
      have new : (seeded n).cache.atPath? (Stored.key hostLibrary) = none := by rfl
      rw [← Stored.host.keyOf n] at new
      rw [Cache.loads_new new, Stored.host.loaded (by omega), Stored.host.keyOf]
      rfl
    rw [if_pos (decide_eq_true short), loads, if_neg (by omega)]
    rfl
  · rw [if_neg (by simp [short]), if_pos (by omega)]
    rfl

/-- What the processor sees of the game, if its first reference is spelled in some way. -/
theorem opened_spellings {n : Nat} (n' : Nat) (short : n ≤ 4082) :
    ((unhosted.opened healthGame (spellings n n')).run libraryDisk).value.2 =
      .ok (if 4081 < n then { target := healthGame } else healthContext) := by
  have start : ({
      cache := unhosted.cache
      resolveAdditional := unhosted.config.resolveAdditional } : Resolver) =
    { cache := {}, resolveAdditional := true } := by rfl
  have asked : healthGame.references = [hostLibrary.identity] := by rfl
  have unknown : Context.knows { target := healthGame } hostLibrary.identity.name = false := by
    rfl
  have steps : maxReferences = 1022 + 1 + 1 := by rfl
  have resolves := resolves_host n
  rw [value_opened, start, seeds_spellings n' short]
  dsimp only
  rw [Context.value_build, steps, Context.close_succ, asked, Context.nexts_cons, unknown,
    if_neg Bool.false_ne_true]
  generalize (seeded n).resolves libraryDisk hostLibrary.identity = x at resolves ⊢
  obtain ⟨r, found⟩ := x
  dsimp only at resolves
  rw [resolves]
  by_cases long : 4081 < n
  · rw [if_pos long, if_pos long]
    rfl
  · rw [if_neg long, if_neg long]
    dsimp only
    rw [Context.close_succ]
    rfl

theorem run_spellings {n : Nat} (n' : Nat) (short : n ≤ 4082) :
    ((unhosted.run 8 healthGame (spellings n n')).run libraryDisk).value.2 =
      unhosted.concluded 8 healthGame
        (if 4081 < n then { target := healthGame } else healthContext) := by
  have opened := opened_spellings n' short
  rw [run_value]
  generalize ((unhosted.opened healthGame _).run libraryDisk).value = x at opened ⊢
  obtain ⟨r, made⟩ := x
  dsimp only at opened
  rw [opened]

theorem loads_spellings {n n' : Nat} (short : n ≤ 4082) (short' : n' ≤ 4082) :
    ∀ path ∈ spellings n n', ∃ m, (unhosted.cache.loads libraryDisk path).2 = .ok m := by
  have name : systemLibrary.name.utf8ByteSize = 3 := by decide
  have loads {n : Nat} (short : n ≤ 4082) : ∃ m, (unhosted.cache.loads libraryDisk
      (libraryFile n systemLibrary Name.imageExtension)).2 = .ok m := by
    rw [Cache.loads_new rfl, Stored.system.loaded (by omega)]
    exact ⟨_, rfl⟩
  simp only [spellings, List.forall_mem_cons]
  exact ⟨loads short, loads short', nofun⟩

/-- Only the host is asked for. -/
theorem asked_libraryDisk {i : Identity} (asked : Asked libraryDisk unhosted.cache healthGame i) :
    i = hostLibrary.identity := by
  rcases asked with listed | ⟨m, held | ⟨-, p, loaded⟩, listed⟩
  · exact List.mem_singleton.mp listed
  · cases held
  · obtain ⟨l, stored, content, -⟩ := libraryDisk_loaded loaded
    rw [Image.references_of_content content] at listed
    cases stored <;> cases listed

theorem offers_libraries {n n' : Nat} (short' : n' ≤ 4081) :
    Resolver.Offers libraryDisk hostLibrary.identity (libraries n) (libraries n') := by
  have name : hostLibrary.name.utf8ByteSize = 4 := by decide
  have loaded := Stored.host.loaded (n := n') (by omega)
  intro there
  rw [Stored.host.candidate, Stored.host.candidate, Stored.host.keyOf, Stored.host.keyOf]
  refine ⟨?_, rfl, fun _ => ⟨_, _, loaded, rfl⟩⟩
  change (libraryDisk.readAt _).isSome
  rw [Stored.host.readAt, if_neg (by omega)]
  rfl

/-- Where each spelling is short enough, the order of the two makes no difference. -/
theorem spellings_perm :
    Orderly libraryDisk unhosted.cache ∧ (spellings 0 1).Perm (spellings 1 0) ∧
    (∀ path ∈ spellings 0 1, ∃ m, (unhosted.cache.loads libraryDisk path).2 = .ok m) ∧
    (∀ path ∈ spellings 0 1, ∀ path' ∈ spellings 0 1, ∀ d e, path.parent? = some d →
      path'.parent? = some e → e.same d → ∀ i, Asked libraryDisk unhosted.cache healthGame i →
      Resolver.Offers libraryDisk i d e) ∧
    ((unhosted.run 8 healthGame (spellings 0 1)).run libraryDisk).value.2 =
      ((unhosted.run 8 healthGame (spellings 1 0)).run libraryDisk).value.2 := by
  have perm : (spellings 0 1).Perm (spellings 1 0) := .swap _ _ _
  have loads : ∀ path ∈ spellings 0 1, ∃ m, (unhosted.cache.loads libraryDisk path).2 = .ok m :=
    loads_spellings (by decide) (by decide)
  have directory : ∀ path ∈ spellings 0 1, ∀ d, path.parent? = some d →
      ∃ n, n ≤ 4081 ∧ d = libraries n := by
    simp only [spellings, List.forall_mem_cons, Stored.system.parent?]
    refine ⟨?_, ?_, nofun⟩ <;> rintro _ ⟨⟩
    · exact ⟨0, by decide, rfl⟩
    · exact ⟨1, by decide, rfl⟩
  have alike : ∀ path ∈ spellings 0 1, ∀ path' ∈ spellings 0 1, ∀ d e, path.parent? = some d →
      path'.parent? = some e → e.same d → ∀ i, Asked libraryDisk unhosted.cache healthGame i →
      Resolver.Offers libraryDisk i d e := by
    intro path hp path' hp' d e parent parent' _ i asked
    obtain ⟨n, -, rfl⟩ := directory path hp d parent
    obtain ⟨n', short, rfl⟩ := directory path' hp' e parent'
    obtain rfl := asked_libraryDisk asked
    exact offers_libraries short
  exact ⟨libraryDisk_orderly, perm, loads, alike,
    run_perm libraryDisk_orderly perm loads healthGame alike 8⟩

/-- Where one of them is so long that only the shorter name fits behind it, the order decides
whether the host is found. -/
theorem spellings_differ :
    Orderly libraryDisk unhosted.cache ∧ (spellings 4082 0).Perm (spellings 0 4082) ∧
    (∀ path ∈ spellings 4082 0, ∃ m, (unhosted.cache.loads libraryDisk path).2 = .ok m) ∧
    ((unhosted.run 8 healthGame (spellings 4082 0)).run libraryDisk).value.2 ≠
      ((unhosted.run 8 healthGame (spellings 0 4082)).run libraryDisk).value.2 := by
  refine ⟨libraryDisk_orderly, .swap _ _ _, loads_spellings (by decide) (by decide), ?_⟩
  obtain ⟨e, failed⟩ : ∃ e, unhosted.concluded 8 healthGame { target := healthGame } = .failed e :=
    ⟨_, by rfl⟩
  obtain ⟨o, done⟩ : ∃ o, unhosted.concluded 8 healthGame healthContext = .done o := ⟨_, by rfl⟩
  rw [run_spellings _ (by decide), run_spellings _ (by decide), if_pos (by decide),
    if_neg (by decide), failed, done]
  nofun

end Companions.Processor
