namespace QuantGraph

/-! The kinds of operation, in alphabetical order. The order of the kinds is
the order in which registries and reports list them. -/

inductive OpKind where
  | add | avgPool | concat | constant | convert | convolution | divide | fakeQuantize
  | groupConvolution | interpolate | matMul | maxPool | multiply | parameter | relu
  | reshape | result | squeeze | subtract | transpose | unsqueeze
  deriving DecidableEq, Repr, Inhabited

namespace OpKind

/-- All kinds, in order. -/
def all : List OpKind :=
  [add, avgPool, concat, constant, convert, convolution, divide, fakeQuantize,
    groupConvolution, interpolate, matMul, maxPool, multiply, parameter, relu,
    reshape, result, squeeze, subtract, transpose, unsqueeze]

theorem mem_all (kind : OpKind) : kind ∈ all := by
  cases kind <;> decide

def name : OpKind → String
  | add => "Add"
  | avgPool => "AvgPool"
  | concat => "Concat"
  | constant => "Constant"
  | convert => "Convert"
  | convolution => "Convolution"
  | divide => "Divide"
  | fakeQuantize => "FakeQuantize"
  | groupConvolution => "GroupConvolution"
  | interpolate => "Interpolate"
  | matMul => "MatMul"
  | maxPool => "MaxPool"
  | multiply => "Multiply"
  | parameter => "Parameter"
  | relu => "Relu"
  | reshape => "Reshape"
  | result => "Result"
  | squeeze => "Squeeze"
  | subtract => "Subtract"
  | transpose => "Transpose"
  | unsqueeze => "Unsqueeze"

/-- The kind of a given name, if there is one. -/
def ofName? (text : String) : Option OpKind := all.find? fun kind => kind.name == text

/-- Put kinds in order, keeping repetitions. -/
def sort (kinds : List OpKind) : List OpKind :=
  all.flatMap fun kind => kinds.filter (· = kind)

example : sort [relu, add, relu] = [add, relu, relu] := by decide

end OpKind

end QuantGraph
