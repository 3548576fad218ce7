import XmlRecords.Schema.Bundled.Builder

/-!
The schema of audio policy configurations, version 7.0.
-/

set_option autoImplicit false
set_option relaxedAutoImplicit false

namespace XmlRecords.Schema.Bundled

private def versionValues : List String := [
  "7.0"]

private def halVersionValues : List String := [
  "2.0", "3.0"]

private def audioInOutFlagValues : List String := [
  "AUDIO_OUTPUT_FLAG_DIRECT", "AUDIO_OUTPUT_FLAG_PRIMARY", "AUDIO_OUTPUT_FLAG_FAST",
  "AUDIO_OUTPUT_FLAG_DEEP_BUFFER", "AUDIO_OUTPUT_FLAG_COMPRESS_OFFLOAD",
  "AUDIO_OUTPUT_FLAG_NON_BLOCKING", "AUDIO_OUTPUT_FLAG_HW_AV_SYNC", "AUDIO_OUTPUT_FLAG_TTS",
  "AUDIO_OUTPUT_FLAG_RAW", "AUDIO_OUTPUT_FLAG_SYNC", "AUDIO_OUTPUT_FLAG_IEC958_NONAUDIO",
  "AUDIO_OUTPUT_FLAG_DIRECT_PCM", "AUDIO_OUTPUT_FLAG_MMAP_NOIRQ", "AUDIO_OUTPUT_FLAG_VOIP_RX",
  "AUDIO_OUTPUT_FLAG_INCALL_MUSIC", "AUDIO_OUTPUT_FLAG_GAPLESS_OFFLOAD", "AUDIO_INPUT_FLAG_FAST",
  "AUDIO_INPUT_FLAG_HW_HOTWORD", "AUDIO_INPUT_FLAG_RAW", "AUDIO_INPUT_FLAG_SYNC",
  "AUDIO_INPUT_FLAG_MMAP_NOIRQ", "AUDIO_INPUT_FLAG_VOIP_TX", "AUDIO_INPUT_FLAG_HW_AV_SYNC",
  "AUDIO_INPUT_FLAG_DIRECT"]

private def roleValues : List String := [
  "sink", "source"]

private def audioDeviceValues : List String := [
  "AUDIO_DEVICE_NONE", "AUDIO_DEVICE_OUT_EARPIECE", "AUDIO_DEVICE_OUT_SPEAKER",
  "AUDIO_DEVICE_OUT_WIRED_HEADSET", "AUDIO_DEVICE_OUT_WIRED_HEADPHONE",
  "AUDIO_DEVICE_OUT_BLUETOOTH_SCO", "AUDIO_DEVICE_OUT_BLUETOOTH_SCO_HEADSET",
  "AUDIO_DEVICE_OUT_BLUETOOTH_SCO_CARKIT", "AUDIO_DEVICE_OUT_BLUETOOTH_A2DP",
  "AUDIO_DEVICE_OUT_BLUETOOTH_A2DP_HEADPHONES", "AUDIO_DEVICE_OUT_BLUETOOTH_A2DP_SPEAKER",
  "AUDIO_DEVICE_OUT_HDMI", "AUDIO_DEVICE_OUT_HDMI_EARC", "AUDIO_DEVICE_OUT_AUX_DIGITAL",
  "AUDIO_DEVICE_OUT_ANLG_DOCK_HEADSET", "AUDIO_DEVICE_OUT_DGTL_DOCK_HEADSET",
  "AUDIO_DEVICE_OUT_USB_ACCESSORY", "AUDIO_DEVICE_OUT_USB_DEVICE",
  "AUDIO_DEVICE_OUT_REMOTE_SUBMIX", "AUDIO_DEVICE_OUT_TELEPHONY_TX", "AUDIO_DEVICE_OUT_LINE",
  "AUDIO_DEVICE_OUT_HDMI_ARC", "AUDIO_DEVICE_OUT_SPDIF", "AUDIO_DEVICE_OUT_FM",
  "AUDIO_DEVICE_OUT_AUX_LINE", "AUDIO_DEVICE_OUT_SPEAKER_SAFE", "AUDIO_DEVICE_OUT_IP",
  "AUDIO_DEVICE_OUT_BUS", "AUDIO_DEVICE_OUT_PROXY", "AUDIO_DEVICE_OUT_USB_HEADSET",
  "AUDIO_DEVICE_OUT_HEARING_AID", "AUDIO_DEVICE_OUT_ECHO_CANCELLER",
  "AUDIO_DEVICE_OUT_BLE_HEADSET", "AUDIO_DEVICE_OUT_BLE_SPEAKER", "AUDIO_DEVICE_OUT_DEFAULT",
  "AUDIO_DEVICE_OUT_STUB", "AUDIO_DEVICE_IN_COMMUNICATION", "AUDIO_DEVICE_IN_AMBIENT",
  "AUDIO_DEVICE_IN_BUILTIN_MIC", "AUDIO_DEVICE_IN_BLUETOOTH_SCO_HEADSET",
  "AUDIO_DEVICE_IN_WIRED_HEADSET", "AUDIO_DEVICE_IN_HDMI", "AUDIO_DEVICE_IN_AUX_DIGITAL",
  "AUDIO_DEVICE_IN_VOICE_CALL", "AUDIO_DEVICE_IN_TELEPHONY_RX", "AUDIO_DEVICE_IN_BACK_MIC",
  "AUDIO_DEVICE_IN_REMOTE_SUBMIX", "AUDIO_DEVICE_IN_ANLG_DOCK_HEADSET",
  "AUDIO_DEVICE_IN_DGTL_DOCK_HEADSET", "AUDIO_DEVICE_IN_USB_ACCESSORY",
  "AUDIO_DEVICE_IN_USB_DEVICE", "AUDIO_DEVICE_IN_FM_TUNER", "AUDIO_DEVICE_IN_TV_TUNER",
  "AUDIO_DEVICE_IN_LINE", "AUDIO_DEVICE_IN_SPDIF", "AUDIO_DEVICE_IN_BLUETOOTH_A2DP",
  "AUDIO_DEVICE_IN_LOOPBACK", "AUDIO_DEVICE_IN_IP", "AUDIO_DEVICE_IN_BUS",
  "AUDIO_DEVICE_IN_PROXY", "AUDIO_DEVICE_IN_USB_HEADSET", "AUDIO_DEVICE_IN_BLUETOOTH_BLE",
  "AUDIO_DEVICE_IN_HDMI_ARC", "AUDIO_DEVICE_IN_HDMI_EARC", "AUDIO_DEVICE_IN_ECHO_REFERENCE",
  "AUDIO_DEVICE_IN_BLE_HEADSET", "AUDIO_DEVICE_IN_DEFAULT", "AUDIO_DEVICE_IN_STUB"]

private def audioFormatValues : List String := [
  "AUDIO_FORMAT_DEFAULT", "AUDIO_FORMAT_PCM_16_BIT", "AUDIO_FORMAT_PCM_8_BIT",
  "AUDIO_FORMAT_PCM_32_BIT", "AUDIO_FORMAT_PCM_8_24_BIT", "AUDIO_FORMAT_PCM_FLOAT",
  "AUDIO_FORMAT_PCM_24_BIT_PACKED", "AUDIO_FORMAT_MP3", "AUDIO_FORMAT_AMR_NB",
  "AUDIO_FORMAT_AMR_WB", "AUDIO_FORMAT_AAC", "AUDIO_FORMAT_AAC_MAIN", "AUDIO_FORMAT_AAC_LC",
  "AUDIO_FORMAT_AAC_SSR", "AUDIO_FORMAT_AAC_LTP", "AUDIO_FORMAT_AAC_HE_V1",
  "AUDIO_FORMAT_AAC_SCALABLE", "AUDIO_FORMAT_AAC_ERLC", "AUDIO_FORMAT_AAC_LD",
  "AUDIO_FORMAT_AAC_HE_V2", "AUDIO_FORMAT_AAC_ELD", "AUDIO_FORMAT_AAC_XHE",
  "AUDIO_FORMAT_HE_AAC_V1", "AUDIO_FORMAT_HE_AAC_V2", "AUDIO_FORMAT_VORBIS", "AUDIO_FORMAT_OPUS",
  "AUDIO_FORMAT_AC3", "AUDIO_FORMAT_E_AC3", "AUDIO_FORMAT_E_AC3_JOC", "AUDIO_FORMAT_DTS",
  "AUDIO_FORMAT_DTS_HD", "AUDIO_FORMAT_IEC61937", "AUDIO_FORMAT_DOLBY_TRUEHD",
  "AUDIO_FORMAT_EVRC", "AUDIO_FORMAT_EVRCB", "AUDIO_FORMAT_EVRCWB", "AUDIO_FORMAT_EVRCNW",
  "AUDIO_FORMAT_AAC_ADIF", "AUDIO_FORMAT_WMA", "AUDIO_FORMAT_WMA_PRO",
  "AUDIO_FORMAT_AMR_WB_PLUS", "AUDIO_FORMAT_MP2", "AUDIO_FORMAT_QCELP", "AUDIO_FORMAT_DSD",
  "AUDIO_FORMAT_FLAC", "AUDIO_FORMAT_ALAC", "AUDIO_FORMAT_APE", "AUDIO_FORMAT_AAC_ADTS",
  "AUDIO_FORMAT_AAC_ADTS_MAIN", "AUDIO_FORMAT_AAC_ADTS_LC", "AUDIO_FORMAT_AAC_ADTS_SSR",
  "AUDIO_FORMAT_AAC_ADTS_LTP", "AUDIO_FORMAT_AAC_ADTS_HE_V1", "AUDIO_FORMAT_AAC_ADTS_SCALABLE",
  "AUDIO_FORMAT_AAC_ADTS_ERLC", "AUDIO_FORMAT_AAC_ADTS_LD", "AUDIO_FORMAT_AAC_ADTS_HE_V2",
  "AUDIO_FORMAT_AAC_ADTS_ELD", "AUDIO_FORMAT_AAC_ADTS_XHE", "AUDIO_FORMAT_SBC",
  "AUDIO_FORMAT_APTX", "AUDIO_FORMAT_APTX_HD", "AUDIO_FORMAT_AC4", "AUDIO_FORMAT_LDAC",
  "AUDIO_FORMAT_MAT", "AUDIO_FORMAT_MAT_1_0", "AUDIO_FORMAT_MAT_2_0", "AUDIO_FORMAT_MAT_2_1",
  "AUDIO_FORMAT_AAC_LATM", "AUDIO_FORMAT_AAC_LATM_LC", "AUDIO_FORMAT_AAC_LATM_HE_V1",
  "AUDIO_FORMAT_AAC_LATM_HE_V2", "AUDIO_FORMAT_CELT", "AUDIO_FORMAT_APTX_ADAPTIVE",
  "AUDIO_FORMAT_LHDC", "AUDIO_FORMAT_LHDC_LL", "AUDIO_FORMAT_APTX_TWSP", "AUDIO_FORMAT_LC3",
  "AUDIO_FORMAT_MPEGH_BL_L3", "AUDIO_FORMAT_MPEGH_BL_L4", "AUDIO_FORMAT_MPEGH_LC_L3",
  "AUDIO_FORMAT_MPEGH_LC_L4", "AUDIO_FORMAT_IEC60958", "AUDIO_FORMAT_DTS_UHD", "AUDIO_FORMAT_DRA"]

private def audioUsageValues : List String := [
  "AUDIO_USAGE_UNKNOWN", "AUDIO_USAGE_MEDIA", "AUDIO_USAGE_VOICE_COMMUNICATION",
  "AUDIO_USAGE_VOICE_COMMUNICATION_SIGNALLING", "AUDIO_USAGE_ALARM", "AUDIO_USAGE_NOTIFICATION",
  "AUDIO_USAGE_NOTIFICATION_TELEPHONY_RINGTONE", "AUDIO_USAGE_ASSISTANCE_ACCESSIBILITY",
  "AUDIO_USAGE_ASSISTANCE_NAVIGATION_GUIDANCE", "AUDIO_USAGE_ASSISTANCE_SONIFICATION",
  "AUDIO_USAGE_GAME", "AUDIO_USAGE_VIRTUAL_SOURCE", "AUDIO_USAGE_ASSISTANT",
  "AUDIO_USAGE_CALL_ASSISTANT", "AUDIO_USAGE_EMERGENCY", "AUDIO_USAGE_SAFETY",
  "AUDIO_USAGE_VEHICLE_STATUS", "AUDIO_USAGE_ANNOUNCEMENT"]

private def audioContentTypeValues : List String := [
  "AUDIO_CONTENT_TYPE_UNKNOWN", "AUDIO_CONTENT_TYPE_SPEECH", "AUDIO_CONTENT_TYPE_MUSIC",
  "AUDIO_CONTENT_TYPE_MOVIE", "AUDIO_CONTENT_TYPE_SONIFICATION"]

private def audioChannelMaskValues : List String := [
  "AUDIO_CHANNEL_NONE", "AUDIO_CHANNEL_OUT_MONO", "AUDIO_CHANNEL_OUT_STEREO",
  "AUDIO_CHANNEL_OUT_2POINT1", "AUDIO_CHANNEL_OUT_TRI", "AUDIO_CHANNEL_OUT_TRI_BACK",
  "AUDIO_CHANNEL_OUT_3POINT1", "AUDIO_CHANNEL_OUT_2POINT0POINT2",
  "AUDIO_CHANNEL_OUT_2POINT1POINT2", "AUDIO_CHANNEL_OUT_3POINT0POINT2",
  "AUDIO_CHANNEL_OUT_3POINT1POINT2", "AUDIO_CHANNEL_OUT_QUAD", "AUDIO_CHANNEL_OUT_QUAD_BACK",
  "AUDIO_CHANNEL_OUT_QUAD_SIDE", "AUDIO_CHANNEL_OUT_SURROUND", "AUDIO_CHANNEL_OUT_PENTA",
  "AUDIO_CHANNEL_OUT_5POINT1", "AUDIO_CHANNEL_OUT_5POINT1_BACK",
  "AUDIO_CHANNEL_OUT_5POINT1_SIDE", "AUDIO_CHANNEL_OUT_5POINT1POINT2",
  "AUDIO_CHANNEL_OUT_5POINT1POINT4", "AUDIO_CHANNEL_OUT_6POINT1", "AUDIO_CHANNEL_OUT_7POINT1",
  "AUDIO_CHANNEL_OUT_7POINT1POINT2", "AUDIO_CHANNEL_OUT_7POINT1POINT4",
  "AUDIO_CHANNEL_OUT_13POINT_360RA", "AUDIO_CHANNEL_OUT_22POINT2",
  "AUDIO_CHANNEL_OUT_MONO_HAPTIC_A", "AUDIO_CHANNEL_OUT_STEREO_HAPTIC_A",
  "AUDIO_CHANNEL_OUT_HAPTIC_AB", "AUDIO_CHANNEL_OUT_MONO_HAPTIC_AB",
  "AUDIO_CHANNEL_OUT_STEREO_HAPTIC_AB", "AUDIO_CHANNEL_IN_MONO", "AUDIO_CHANNEL_IN_STEREO",
  "AUDIO_CHANNEL_IN_FRONT_BACK", "AUDIO_CHANNEL_IN_6", "AUDIO_CHANNEL_IN_2POINT0POINT2",
  "AUDIO_CHANNEL_IN_2POINT1POINT2", "AUDIO_CHANNEL_IN_3POINT0POINT2",
  "AUDIO_CHANNEL_IN_3POINT1POINT2", "AUDIO_CHANNEL_IN_5POINT1",
  "AUDIO_CHANNEL_IN_VOICE_UPLINK_MONO", "AUDIO_CHANNEL_IN_VOICE_DNLINK_MONO",
  "AUDIO_CHANNEL_IN_VOICE_CALL_MONO", "AUDIO_CHANNEL_INDEX_MASK_1", "AUDIO_CHANNEL_INDEX_MASK_2",
  "AUDIO_CHANNEL_INDEX_MASK_3", "AUDIO_CHANNEL_INDEX_MASK_4", "AUDIO_CHANNEL_INDEX_MASK_5",
  "AUDIO_CHANNEL_INDEX_MASK_6", "AUDIO_CHANNEL_INDEX_MASK_7", "AUDIO_CHANNEL_INDEX_MASK_8",
  "AUDIO_CHANNEL_INDEX_MASK_9", "AUDIO_CHANNEL_INDEX_MASK_10", "AUDIO_CHANNEL_INDEX_MASK_11",
  "AUDIO_CHANNEL_INDEX_MASK_12", "AUDIO_CHANNEL_INDEX_MASK_13", "AUDIO_CHANNEL_INDEX_MASK_14",
  "AUDIO_CHANNEL_INDEX_MASK_15", "AUDIO_CHANNEL_INDEX_MASK_16", "AUDIO_CHANNEL_INDEX_MASK_17",
  "AUDIO_CHANNEL_INDEX_MASK_18", "AUDIO_CHANNEL_INDEX_MASK_19", "AUDIO_CHANNEL_INDEX_MASK_20",
  "AUDIO_CHANNEL_INDEX_MASK_21", "AUDIO_CHANNEL_INDEX_MASK_22", "AUDIO_CHANNEL_INDEX_MASK_23",
  "AUDIO_CHANNEL_INDEX_MASK_24"]

private def audioEncapsulationTypeValues : List String := [
  "AUDIO_ENCAPSULATION_TYPE_NONE", "AUDIO_ENCAPSULATION_TYPE_IEC61937"]

private def audioGainModeValues : List String := [
  "AUDIO_GAIN_MODE_JOINT", "AUDIO_GAIN_MODE_CHANNELS", "AUDIO_GAIN_MODE_RAMP"]

private def mixTypeValues : List String := [
  "mix", "mux"]

private def audioStreamTypeValues : List String := [
  "AUDIO_STREAM_VOICE_CALL", "AUDIO_STREAM_SYSTEM", "AUDIO_STREAM_RING", "AUDIO_STREAM_MUSIC",
  "AUDIO_STREAM_ALARM", "AUDIO_STREAM_NOTIFICATION", "AUDIO_STREAM_BLUETOOTH_SCO",
  "AUDIO_STREAM_ENFORCED_AUDIBLE", "AUDIO_STREAM_DTMF", "AUDIO_STREAM_TTS",
  "AUDIO_STREAM_ACCESSIBILITY", "AUDIO_STREAM_ASSISTANT", "AUDIO_STREAM_REROUTING",
  "AUDIO_STREAM_PATCH", "AUDIO_STREAM_CALL_ASSISTANT"]

private def audioSourceValues : List String := [
  "AUDIO_SOURCE_DEFAULT", "AUDIO_SOURCE_MIC", "AUDIO_SOURCE_VOICE_UPLINK",
  "AUDIO_SOURCE_VOICE_DOWNLINK", "AUDIO_SOURCE_VOICE_CALL", "AUDIO_SOURCE_CAMCORDER",
  "AUDIO_SOURCE_VOICE_RECOGNITION", "AUDIO_SOURCE_VOICE_COMMUNICATION",
  "AUDIO_SOURCE_REMOTE_SUBMIX", "AUDIO_SOURCE_UNPROCESSED", "AUDIO_SOURCE_VOICE_PERFORMANCE",
  "AUDIO_SOURCE_ECHO_REFERENCE", "AUDIO_SOURCE_FM_TUNER", "AUDIO_SOURCE_HOTWORD"]

private def deviceCategoryValues : List String := [
  "DEVICE_CATEGORY_HEADSET", "DEVICE_CATEGORY_SPEAKER", "DEVICE_CATEGORY_EARPIECE",
  "DEVICE_CATEGORY_EXT_MEDIA", "DEVICE_CATEGORY_HEARING_AID"]

private def engineSuffixValues : List String := [
  "default", "configurable"]

def audioPolicyConfiguration : Json :=
  definition "audio_policy_configuration_v7_0" "audioPolicyConfiguration" "AudioPolicyConfiguration"
    [
      enumeration "Version" versionValues,
      enumeration "HalVersion" halVersionValues,
      enumeration "AudioInOutFlag" audioInOutFlagValues,
      enumeration "Role" roleValues,
      enumeration "AudioDevice" audioDeviceValues,
      enumeration "AudioFormat" audioFormatValues,
      enumeration "AudioUsage" audioUsageValues,
      enumeration "AudioContentType" audioContentTypeValues,
      enumeration "AudioChannelMask" audioChannelMaskValues,
      enumeration "AudioEncapsulationType" audioEncapsulationTypeValues,
      enumeration "AudioGainMode" audioGainModeValues,
      enumeration "MixType" mixTypeValues,
      enumeration "AudioStreamType" audioStreamTypeValues,
      enumeration "AudioSource" audioSourceValues,
      enumeration "DeviceCategory" deviceCategoryValues,
      enumeration "EngineSuffix" engineSuffixValues]
    [
      complexType "GlobalConfiguration" [
        requiredAttribute "speaker_drc_enabled" "bool",
        optionalAttribute "call_screen_mode_supported" "bool",
        optionalAttribute "engine_library" "EngineSuffix"] [] [],
      complexType "Modules" [] [manyElements "module" "Module" 0] [
        complexType "Module" [
          requiredAttribute "name" "string",
          requiredAttribute "halVersion" "HalVersion"] [
          manyElements "attachedDevices" "AttachedDevices" 0,
          optionalElement "defaultOutputDevice" "string",
          manyElements "mixPorts" "MixPorts" 0,
          manyElements "devicePorts" "DevicePorts" 0,
          manyElements "routes" "Routes" 0] []],
      complexType "AttachedDevices" [] [manyElements "item" "string" 0] [],
      complexType "MixPorts" [] [manyElements "mixPort" "MixPort" 0] [
        complexType "MixPort" [
          requiredAttribute "name" "string",
          requiredAttribute "role" "Role",
          listAttribute "flags" "AudioInOutFlag" false,
          optionalAttribute "maxOpenCount" "uint32",
          optionalAttribute "maxActiveCount" "uint32",
          listAttribute "preferredUsage" "AudioUsage" false]
          [manyElements "profile" "Profile" 0, manyElements "gains" "Gains" 0] []],
      complexType "Profile" [
        optionalAttribute "name" "string",
        optionalAttribute "format" "string",
        listAttribute "samplingRates" "int64" false,
        listAttribute "channelMasks" "AudioChannelMask" false,
        optionalAttribute "encapsulationType" "AudioEncapsulationType"] [] [],
      complexType "Gains" [] [manyElements "gain" "Gain" 0] [
        complexType "Gain" [
          requiredAttribute "name" "string",
          listAttribute "mode" "AudioGainMode" true,
          optionalAttribute "channel_mask" "AudioChannelMask",
          optionalAttribute "minValueMB" "int32",
          optionalAttribute "maxValueMB" "int32",
          optionalAttribute "defaultValueMB" "int32",
          optionalAttribute "stepValueMB" "int32",
          optionalAttribute "minRampMs" "int32",
          optionalAttribute "maxRampMs" "int32",
          optionalAttribute "useForVolume" "bool"] [] []],
      complexType "DevicePorts" [] [manyElements "devicePort" "DevicePort" 0] [
        complexType "DevicePort" [
          requiredAttribute "tagName" "string",
          requiredAttribute "type" "string",
          requiredAttribute "role" "Role",
          optionalAttribute "address" "string",
          optionalAttribute "default" "bool",
          listAttribute "encodedFormats" "string" false]
          [manyElements "profile" "Profile" 0, manyElements "gains" "Gains" 0] []],
      complexType "Routes" [] [manyElements "route" "Route" 0] [
        complexType "Route" [
          requiredAttribute "type" "MixType",
          requiredAttribute "sink" "string",
          requiredAttribute "sources" "string"] [] []],
      complexType "Volumes" [] [
        manyElements "volume" "Volume" 0,
        manyElements "reference" "Reference" 0] [],
      complexType "Volume" [
        optionalAttribute "stream" "AudioStreamType",
        optionalAttribute "deviceCategory" "DeviceCategory",
        optionalAttribute "ref" "string"] [manyElements "point" "string" 0] [],
      complexType "Reference" [requiredAttribute "name" "string"]
        [manyElements "point" "string" 1] [],
      complexType "SurroundSound" [] [manyElements "formats" "SurroundFormats" 0] [],
      complexType "SurroundFormats" [] [manyElements "format" "Format" 0] [
        complexType "Format" [
          requiredAttribute "name" "string",
          listAttribute "subformats" "string" false] [] []],
      complexType "AudioPolicyConfiguration" [optionalAttribute "version" "Version"] [
        manyElements "globalConfiguration" "GlobalConfiguration" 0,
        manyElements "modules" "Modules" 0,
        manyElements "volumes" "Volumes" 0,
        manyElements "surroundSound" "SurroundSound" 0] []]

end XmlRecords.Schema.Bundled
