import Singa.Web.Model

/-!
# The package of the editor

The definitions that `model.js` makes of `job.proto`: messages, fields, rules,
types and defaults.
-/

namespace Singa.Web
set_option autoImplicit false

/-- `new FieldDef(…)` without a default. -/
def field (name : String) (rule : Rule) (type : String)
    (word : name.toList ≠ [] ∧ ∀ c ∈ name.toList, isWord c := by
      exact ⟨by decide +kernel, List.all_eq_true.mp (by decide +kernel)⟩)
    (own : name.toList ∉ objectPrototype ∧ name.toList ≠ ['p', 'u', 's', 'h'] := by decide +kernel) : FieldDef :=
  ⟨⟨name.toList, word, own⟩, rule, type.toList, none⟩

/-- `new FieldDef(…)` with a default. -/
def fieldWith (name : String) (rule : Rule) (type default : String)
    (word : name.toList ≠ [] ∧ ∀ c ∈ name.toList, isWord c := by
      exact ⟨by decide +kernel, List.all_eq_true.mp (by decide +kernel)⟩)
    (own : name.toList ∉ objectPrototype ∧ name.toList ≠ ['p', 'u', 's', 'h'] := by decide +kernel)
    (oneLine : '\n' ∉ default.toList := by decide +kernel) : FieldDef :=
  ⟨⟨name.toList, word, own⟩, rule, type.toList, some ⟨default.toList, oneLine⟩⟩

def jobProto : MessageDef :=
  ⟨"JobProto".toList, [
    field "cluster" .required "ClusterProto",
    field "model" .required "ModelProto"]⟩

def clusterProto : MessageDef :=
  ⟨"ClusterProto".toList, [
    field "nworker_groups" .optional "int32",
    field "nserver_groups" .optional "int32",
    fieldWith "nworkers_per_group" .optional "int32" "1",
    fieldWith "nservers_per_group" .optional "int32" "1",
    fieldWith "nworkers_per_procs" .optional "int32" "1",
    fieldWith "nservers_per_procs" .optional "int32" "1",
    fieldWith "workspace" .optional "string" "workspace",
    fieldWith "server_worker_separate" .optional "bool" "false",
    fieldWith "bandwidth" .optional "int32" "134217728",
    fieldWith "poll_time" .optional "int32" "100",
    fieldWith "start_port" .optional "int32" "6723",
    fieldWith "server_update" .optional "bool" "true",
    fieldWith "share_memory" .optional "bool" "true"]⟩

def modelProto : MessageDef :=
  ⟨"ModelProto".toList, [
    field "name" .required "string",
    field "display_frequency" .required "int32",
    field "train_steps" .required "int32",
    field "updater" .required "UpdaterProto",
    fieldWith "alg" .required "GradCalcAlg" "kBackPropagation",
    field "neuralnet" .required "NetProto",
    fieldWith "validation_steps" .optional "int32" "0",
    fieldWith "test_steps" .optional "int32" "0",
    field "validation_frequency" .optional "int32",
    fieldWith "test_frequency" .optional "int32" "0",
    fieldWith "checkpoint_frequency" .optional "int32" "0",
    fieldWith "warmup_steps" .optional "int32" "0",
    fieldWith "resume" .optional "bool" "false",
    fieldWith "vis_frequency" .optional "int32" "0",
    fieldWith "vis_samples" .optional "int32" "0",
    fieldWith "display_after" .optional "int32" "0",
    fieldWith "checkpoint_after" .optional "int32" "0",
    fieldWith "test_after" .optional "int32" "0",
    fieldWith "validation_after" .optional "int32" "0",
    fieldWith "vis_after" .optional "int32" "0",
    fieldWith "step" .optional "int32" "0",
    fieldWith "debug" .optional "bool" "false",
    field "checkpoint" .repeated "string",
    fieldWith "reset_param_version" .optional "bool" "false",
    fieldWith "pcd_k" .optional "int32" "15"]⟩

def netProto : MessageDef :=
  ⟨"NetProto".toList, [
    field "layer" .repeated "LayerProto",
    fieldWith "partition_dim" .optional "int32" "0"]⟩

def paramProto : MessageDef :=
  ⟨"ParamProto".toList, [
    fieldWith "init_method" .optional "InitMethod" "kGaussian",
    fieldWith "value" .optional "float" "1",
    fieldWith "low" .optional "float" "-1",
    fieldWith "high" .optional "float" "1",
    fieldWith "mean" .optional "float" "0",
    fieldWith "std" .optional "float" "1",
    fieldWith "learning_rate_multiplier" .optional "float" "1",
    fieldWith "weight_decay_multiplier" .optional "float" "1",
    fieldWith "vis" .optional "bool" "false",
    field "partition_dim" .optional "int32",
    field "shape" .repeated "int32",
    fieldWith "name" .optional "string" "",
    field "share_from" .optional "string",
    field "id" .optional "int32",
    fieldWith "split_threshold" .optional "int32" "5000000",
    fieldWith "owner" .optional "int32" "-1"]⟩

def layerProto : MessageDef :=
  ⟨"LayerProto".toList, [
    field "name" .required "string",
    field "srclayers" .repeated "string",
    field "param" .repeated "ParamProto",
    field "exclude" .repeated "Phase",
    fieldWith "vis" .optional "bool" "false",
    field "type" .required "LayerType",
    field "convolution_conf" .optional "ConvolutionProto",
    field "concate_conf" .optional "ConcateProto",
    field "dropout_conf" .optional "DropoutProto",
    field "innerproduct_conf" .optional "InnerProductProto",
    field "lmdbdata_conf" .optional "DataProto",
    field "lrn_conf" .optional "LRNProto",
    field "mnist_conf" .optional "MnistProto",
    field "pooling_conf" .optional "PoolingProto",
    field "prefetch_conf" .optional "PrefetchProto",
    field "relu_conf" .optional "ReLUProto",
    field "rgbimage_conf" .optional "RGBImageProto",
    field "sharddata_conf" .optional "DataProto",
    field "slice_conf" .optional "SliceProto",
    field "softmaxloss_conf" .optional "SoftmaxLossProto",
    field "split_conf" .optional "SplitProto",
    field "tanh_conf" .optional "TanhProto",
    field "rbmvis_conf" .optional "RBMVisProto",
    field "rbmhid_conf" .optional "RBMHidProto",
    fieldWith "partition_dim" .optional "int32" "-1",
    fieldWith "datablob" .optional "string" "unknow",
    field "share_param" .repeated "string",
    fieldWith "partition_id" .optional "int32" "0"]⟩

def rgbImageProto : MessageDef :=
  ⟨"RGBImageProto".toList, [
    fieldWith "scale" .optional "float" "1.0",
    fieldWith "cropsize" .optional "int32" "0",
    fieldWith "mirror" .optional "bool" "false",
    fieldWith "meanfile" .optional "string" ""]⟩

def prefetchProto : MessageDef :=
  ⟨"PrefetchProto".toList, [
    field "sublayers" .repeated "LayerProto"]⟩

def splitProto : MessageDef :=
  ⟨"SplitProto".toList, [
    fieldWith "num_splits" .optional "int32" "1"]⟩

def tanhProto : MessageDef :=
  ⟨"TanhProto".toList, [
    fieldWith "outer_scale" .optional "float" "1.0",
    fieldWith "inner_scale" .optional "float" "1.0"]⟩

def softmaxLossProto : MessageDef :=
  ⟨"SoftmaxLossProto".toList, [
    fieldWith "topk" .optional "int32" "1",
    fieldWith "scale" .optional "float" "1"]⟩

def convolutionProto : MessageDef :=
  ⟨"ConvolutionProto".toList, [
    field "num_filters" .required "int32",
    field "kernel" .required "int32",
    fieldWith "pad" .optional "int32" "0",
    fieldWith "stride" .optional "int32" "1",
    fieldWith "bias_term" .optional "bool" "true"]⟩

def concateProto : MessageDef :=
  ⟨"ConcateProto".toList, [
    field "concate_dim" .required "int32"]⟩

def dataProto : MessageDef :=
  ⟨"DataProto".toList, [
    field "path" .required "string",
    field "batchsize" .required "int32",
    fieldWith "random_skip" .optional "int32" "0"]⟩

def mnistProto : MessageDef :=
  ⟨"MnistProto".toList, [
    fieldWith "norm_a" .required "float" "1",
    fieldWith "norm_b" .required "float" "0",
    fieldWith "kernel" .optional "int32" "0",
    fieldWith "sigma" .optional "float" "0",
    fieldWith "alpha" .optional "float" "0",
    fieldWith "beta" .optional "float" "0",
    fieldWith "gamma" .optional "float" "0",
    fieldWith "resize" .optional "int32" "0",
    fieldWith "elastic_freq" .optional "int32" "0"]⟩

def dropoutProto : MessageDef :=
  ⟨"DropoutProto".toList, [
    fieldWith "dropout_ratio" .optional "float" "0.5"]⟩

def rbmVisProto : MessageDef :=
  ⟨"RBMVisProto".toList, [
    field "num_output" .optional "int32",
    fieldWith "bias_term" .optional "bool" "true"]⟩

def rbmHidProto : MessageDef :=
  ⟨"RBMHidProto".toList, [
    field "hid_dim" .optional "int32",
    fieldWith "bias_term" .optional "bool" "true"]⟩

def innerProductProto : MessageDef :=
  ⟨"InnerProductProto".toList, [
    field "num_output" .required "int32",
    fieldWith "bias_term" .optional "bool" "true"]⟩

def lrnProto : MessageDef :=
  ⟨"LRNProto".toList, [
    fieldWith "local_size" .required "int32" "5",
    fieldWith "alpha" .optional "float" "1.0",
    fieldWith "beta" .optional "float" "0.75",
    fieldWith "norm_region" .optional "NormRegion" "ACROSS_CHANNELS",
    fieldWith "knorm" .optional "float" "1.0"]⟩

def poolingProto : MessageDef :=
  ⟨"PoolingProto".toList, [
    field "kernel" .required "int32",
    fieldWith "pool" .optional "PoolMethod" "MAX",
    fieldWith "pad" .optional "uint32" "0",
    fieldWith "stride" .optional "uint32" "1"]⟩

def sliceProto : MessageDef :=
  ⟨"SliceProto".toList, [
    field "slice_dim" .required "int32"]⟩

def reluProto : MessageDef :=
  ⟨"ReLUProto".toList, [
    fieldWith "negative_slope" .optional "float" "0"]⟩

def updaterProto : MessageDef :=
  ⟨"UpdaterProto".toList, [
    fieldWith "type" .required "UpdaterType" "kSGD",
    field "rmsprop_conf" .optional "RMSPropProto",
    fieldWith "lr_change" .required "ChangeMethod" "kFixed",
    field "fixedstep_conf" .optional "FixedStepProto",
    field "step_conf" .optional "StepProto",
    field "linear_conf" .optional "LinearProto",
    field "exponential_conf" .optional "ExponentialProto",
    field "inverse_conf" .optional "InverseProto",
    field "inverset_conf" .optional "InverseTProto",
    fieldWith "momentum" .optional "float" "0",
    fieldWith "weight_decay" .optional "float" "0",
    fieldWith "base_lr" .optional "float" "0",
    fieldWith "delta" .optional "float" "0.00000001"]⟩

def rmspropProto : MessageDef :=
  ⟨"RMSPropProto".toList, [
    field "rho" .required "float"]⟩

def fixedStepProto : MessageDef :=
  ⟨"FixedStepProto".toList, [
    field "step" .repeated "int32",
    field "step_lr" .repeated "float"]⟩

def stepProto : MessageDef :=
  ⟨"StepProto".toList, [
    fieldWith "gamma" .required "float" "1",
    field "change_freq" .required "int32"]⟩

def linearProto : MessageDef :=
  ⟨"LinearProto".toList, [
    field "change_freq" .required "int32",
    field "final_lr" .required "float"]⟩

def exponentialProto : MessageDef :=
  ⟨"ExponentialProto".toList, [
    field "change_freq" .required "int32"]⟩

def inverseTProto : MessageDef :=
  ⟨"InverseTProto".toList, [
    field "final_lr" .required "float"]⟩

def inverseProto : MessageDef :=
  ⟨"InverseProto".toList, [
    fieldWith "gamma" .required "float" "1",
    fieldWith "pow" .required "float" "0"]⟩

/-- `packsinga`. -/
def packsinga : Package where
  messages := [jobProto, clusterProto, modelProto, netProto, paramProto, layerProto, rgbImageProto, prefetchProto,
    splitProto, tanhProto, softmaxLossProto, convolutionProto, concateProto, dataProto, mnistProto, dropoutProto,
    rbmVisProto, rbmHidProto, innerProductProto, lrnProto, poolingProto, sliceProto, reluProto, updaterProto,
    rmspropProto, fixedStepProto, stepProto, linearProto, exponentialProto, inverseTProto, inverseProto]
  enums := ["Phase", "GradCalcAlg", "InitMethod", "PartitionType", "LayerType", "NormRegion", "PoolMethod", "UpdaterType", "ChangeMethod"].map String.toList
  distinct := by decide +kernel
  types := by decide +kernel

end Singa.Web
