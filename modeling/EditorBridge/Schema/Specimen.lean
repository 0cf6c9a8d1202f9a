/-
Record classes that between them use every form of shape.

They serve as specimens wherever a statement about reading and writing records has
to be looked at on an example: enumerations of both kinds, nested and recursive
classes, keys that are not made from names, and a field that cannot be given.
-/
import EditorBridge.Config.Options
import EditorBridge.Feature.Answers
import EditorBridge.Script.Steps

namespace EditorBridge.Schema

namespace Specimen

def enumData : Enumeration where
  name := "EnumData"
  members := [("FIRST", .str "first"), ("SECOND", .str "second")]

def level : Enumeration where
  name := "Level"
  numeric := true
  members := [("LOW", .int 1), ("HIGH", .int 2)]

def options : RecordClass where
  name := "Options"
  hyphenated := true
  checked := true
  fields := [
    { name := "tab_size", shape := .int, default := some (.int 4) },
    { name := "names", shape := .list .str, default := some (.list []) },
    { name := "extra", shape := .dict .str .any, default := some (.dict []) }]

def step : RecordClass where
  name := "Step"
  hyphenated := true
  fields := [
    { name := "action", shape := .literal [.str "open", .str "close"] },
    { name := "position", shape := .tuple [.int, .int], default := some (.tuple [.int 0, .int 0]) },
    { name := "kind", shape := .optional (.enumeration enumData), default := some .null },
    { name := "options", shape := .record "Options", default := some (Config.defaultsOf options) }]

def plain : RecordClass where
  name := "Plain"
  fields := [
    { name := "snake_case", shape := .int, default := some (.int 0) },
    { name := "other_name", shape := .str, default := some (.str "x"), key := some "otherAlias" },
    { name := "hidden", shape := .int, default := some (.int 7), given := false }]

def node : RecordClass where
  name := "Node"
  hyphenated := true
  fields := [
    { name := "node_name", shape := .str },
    { name := "left_child", shape := .optional (.record "Node"), default := some .null },
    { name := "children", shape := .list (.record "Node"), default := some (.list []) }]

def mixed : RecordClass where
  name := "Mixed"
  hyphenated := true
  checked := true
  fields := [
    { name := "ratio", shape := .float, default := some (.float (.ofRatio false 1 2)) },
    { name := "flag", shape := .bool, default := some (.bool false) },
    { name := "level", shape := .optional (.enumeration level), default := some .null },
    { name := "number_or_text", shape := .union [.int, .str], default := some (.int 1) },
    { name := "table", shape := .mapping .str (.list .int), default := some (.dict []) },
    { name := "seq", shape := .sequence .float, default := some (.list []) },
    { name := "var", shape := .tupleOf .int, default := some (.tuple []) },
    { name := "nested", shape := .optional (.record "Options"), default := some .null }]

def classes : List RecordClass := [options, step, plain, node, mixed]

def enumerations : List Enumeration := [enumData, level]

end Specimen

/-- The record classes that can be asked for by name. -/
def Catalog.all : Catalog := ⟨Config.classes ++ Script.classes ++ Specimen.classes⟩

/-- The record classes with the ones that are never read by name: what the steps of a script have
in common, and what a step came to. -/
def Catalog.full : Catalog :=
  ⟨Catalog.all.classes ++ [Script.documentStep, Feature.replayResult]⟩

end EditorBridge.Schema
