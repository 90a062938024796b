import MGFileSystem.Ram.Lookups

/-! The helpers that cut a path at its last slash, on every path with a last component, in
normal form or not, and in every state. -/
namespace MGFileSystem
namespace FilesystemData
variable {d n : Bytes}

theorem getFilenameFromPath_split (d : Bytes) (hn : slash ∉ n) : getFilenameFromPath (d ++ text "/" ++ n) = n := by
  rw [getFilenameFromPath, findLastOf_name d hn, after]
  exact List.drop_left' (by simp [text])

/-- With a slash after the name the first half of `get_parent_directory_from_path` gives the same answer. -/
theorem run_getParentDirectoryFromPath_slash (hd : 0 ∉ d) (hn : slash ∉ n) (s : FilesystemData) :
    (getParentDirectoryFromPath (d ++ text "/" ++ n ++ text "/")).run s =
      .ok ((s.dirIndex (parentKey d)).map s.theDirectories.ptr) s := by
  have hp : d ++ text "/" ++ n ++ text "/" ≠ [] := List.append_ne_nil_of_right_ne_nil _ (by decide)
  have hlast : (d ++ text "/" ++ n ++ text "/").getLast? = some slash := List.getLast?_concat
  have hfront : (d ++ text "/" ++ n ++ text "/").take ((d ++ text "/" ++ n ++ text "/").length - 1) =
      d ++ text "/" ++ n := List.take_left' (by simp [text])
  have hdir : (d ++ text "/" ++ n ++ text "/").take (after (findLastOf slash (d ++ text "/" ++ n))) =
      d ++ text "/" := by
    rw [findLastOf_name d hn, after, List.append_assoc (d ++ text "/")]
    exact List.take_left' (by simp [text])
  simp only [getParentDirectoryFromPath, hp, hlast, if_false, if_true, EStateM.run_bind, hfront, hdir,
    run_getIndexForDirname_dir hd]
  cases s.dirIndex (parentKey d) <;> rfl

/-- For a path made of a directory part, a slash and a name: the helpers cut it at this slash, and every route to its
parent directory finds the first directory stored under the directory part, or finds none, and never fails. -/
theorem path_helpers_agree (hd : 0 ∉ d) (hn : slash ∉ n) (hne : n ≠ []) (s : FilesystemData) :
    getDirFromPath (d ++ text "/" ++ n) = d ++ text "/" ∧ getFilenameFromPath (d ++ text "/" ++ n) = n ∧
      getDirFromPath (d ++ text "/" ++ n) ++ getFilenameFromPath (d ++ text "/" ++ n) = d ++ text "/" ++ n ∧
      ∃ found : Option Nat, found = s.theDirectories.elems.findIdx? (fun e => cStr e.directoryFile.path = parentKey d) ∧
        ((∀ e ∈ s.theDirectories.elems, 0 ∉ e.directoryFile.path) →
          found = s.theDirectories.elems.findIdx? (fun e => e.directoryFile.path = parentKey d)) ∧
        (getIndexForDirname (.ofBytes (getDirFromPath (d ++ text "/" ++ n)))).answer s = .ok found ∧
        (getParentDirectoryFromPath (d ++ text "/" ++ n)).answer s = .ok (found.map s.theDirectories.ptr) ∧
        (getParentDirectoryFromPath (d ++ text "/" ++ n ++ text "/")).answer s =
          .ok (found.map s.theDirectories.ptr) := by
  have hdir := getDirFromPath_split d hn
  have hname := getFilenameFromPath_split d hn
  refine ⟨hdir, hname, by rw [hdir, hname], s.dirIndex (parentKey d), rfl, fun hfree => ?_, ?_, ?_, ?_⟩
  · have hkeys : s.theDirectories.elems.map SimpleDirectory.key = s.theDirectories.elems.map (·.directoryFile.path) :=
      List.map_congr_left fun e he => cStr_of_nul_free (hfree e he)
    exact congrFun (KeyedList.position_congr hkeys) _
  · simp only [Method.answer, hdir, run_getIndexForDirname_dir hd]
  · simp only [Method.answer, run_getParentDirectoryFromPath_name hd hn hne]
  · simp only [Method.answer, run_getParentDirectoryFromPath_slash hd hn]

theorem path_helpers_agree_mgDir1 :
    getDirFromPath (text "/mg_dir_1" ++ text "/" ++ text "x") = text "/mg_dir_1" ++ text "/" ∧
      (getParentDirectoryFromPath (text "/mg_dir_1" ++ text "/" ++ text "x")).answer (init .plain) =
        .ok (some ((init .plain).theDirectories.ptr 0)) := by
  obtain ⟨hdir, -, -, found, hfound, -, -, hparent, -⟩ :=
    path_helpers_agree (d := text "/mg_dir_1") (n := text "x") (by decide) (by decide) (by decide) (init .plain)
  obtain rfl : found = some 0 := hfound.trans rfl
  exact ⟨hdir, hparent⟩

end FilesystemData
end MGFileSystem
